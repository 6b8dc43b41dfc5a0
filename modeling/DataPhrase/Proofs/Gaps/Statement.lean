/-
# Statements with other gaps

The grammars of the three surface forms take the same statement off two texts that are the same but
for their gaps.
-/
import DataPhrase.Proofs.Gaps.Pieces
import DataPhrase.Proofs.Pipeline.Stages
import DataPhrase.Proofs.Pipeline.Written
import DataPhrase.Proofs.Statement.Classify
import DataPhrase.Proofs.Statement.Clause
import DataPhrase.Proofs.Statement.Question
import DataPhrase.Statement.Reader

namespace DataPhrase

open Text Lexeme

variable {s s' t r : List Char}

/-! ## Clauses -/

namespace ClauseForm.Run

variable {C K : Type} {f : ClauseForm C K} {c d : C}

/-- No clause starts with a comma. -/
theorem not_atComma (h : f.Run c s d) : ¬ AtComma s := by
  intro hs
  cases h with
  | stop hend =>
    obtain ⟨t, ht⟩ := hs
    rw [ht] at hend
    cases hend
  | next hw =>
    rw [hs.wordAhead?] at hw
    cases hw

/-- Clause after clause is read off a text with other gaps, unless one clause stops in front of a
comma, where no other can be read. -/
theorem respaced (h : f.Run c s d) (hf : ∀ c kind, CarriesOrStops (f.read c kind))
    (hs : Respaced .outside s s') : f.Run c s' d := by
  induction h generalizing s' with
  | stop hend => exact .stop (hs.trim_nil hend)
  | next hw hk hc hd hrest ih =>
    obtain ⟨q', hw', hq⟩ := hs.wordAhead?_some hw
    rcases hf _ _ hq hd with ⟨u', hd', hu⟩ | hcomma
    · exact .next hw' hk hc hd' (ih hu)
    · exact absurd hcomma hrest.not_atComma

end ClauseForm.Run

/-! ## Transform statements -/

namespace Transform

/-- A clause of a transform statement does not see the blanks, or stops. -/
theorem Clauses.carriesOrStops_readClause (c : Clauses) (kind : ClauseKind) :
    CarriesOrStops (c.readClause kind) := by
  cases kind with
  | join =>
    refine Carries.orStops ((carries_keyword _).bind fun _ => carries_datasetName.bind fun _ => ?_)
    refine (carries_keyword _).bind fun _ => Condition.carries_read.bind fun _ => ?_
    exact carries_pure _
  | operations => exact carries_operation.listOf.map _
  | group => exact (carries_keyword _).bind_orStops fun _ => carriesOrStops_fieldList.map _
  | filter => exact Condition.carries_read.orStops.map _
  | order => exact (carries_keyword _).bind_orStops fun _ => carriesOrStops_orderList.map _
  | select => exact carriesOrStops_fieldList.map _
  | period => exact Period.carries_read.orStops.map _
  | limit => exact carries_integer.orStops.map _

/-- Clauses behind one another do not see the blanks. -/
theorem Clauses.carries_readAll (c : Clauses) : Carries c.readAll := by
  intro s s' d r hs h
  obtain ⟨hrun, rfl⟩ := gives_readAll.mp h
  exact ⟨[], gives_readAll.mpr ⟨hrun.respaced carriesOrStops_readClause hs, rfl⟩, .nil _⟩

/-- **Transform statements** do not see the blanks. -/
theorem carries_read : Carries Transform.read := by
  unfold Transform.read
  refine (carries_keyword _).bind fun _ => carries_datasetName.bind fun _ => ?_
  refine (carries_keyword _).bind fun _ => carries_datasetName.bind fun _ => ?_
  exact (Clauses.carries_readAll _).bind fun _ => carries_pure _

end Transform

/-! ## Questions -/

namespace Question

theorem carries_optionalAlias : Carries optionalAlias := by
  unfold optionalAlias
  refine (carries_eatWord _).bind fun _ => carries_ite ?_ (carries_pure _)
  exact carries_identifier.bind fun _ => carries_pure _

/-- What follows a spoken aggregate does not see the blanks. -/
theorem carries_spokenRest (w : List Char) (f : AggregateFn) : Carries (spokenRest w f) := by
  unfold spokenRest
  exact carries_fieldName.bind fun _ => carries_optionalAlias.bind fun _ => carries_pure _

/-- A spoken aggregate is ahead in both texts or in neither. -/
theorem respaced_spokenAhead? (hs : Respaced .outside s s') :
    (spokenAhead? s = none ∧ spokenAhead? s' = none) ∨
      ∃ x r r', spokenAhead? s = some (x, r) ∧ spokenAhead? s' = some (x, r') ∧
        Respaced .outside r r' := by
  unfold spokenAhead?
  rcases hs.wordAhead? with ⟨hn, hn'⟩ | ⟨w, r, r', hw, hw', hr⟩
  · rw [hn, hn']
    exact Or.inl ⟨rfl, rfl⟩
  · rw [hw, hw']
    dsimp only
    rw [hr.peekWord]
    split
    · exact Or.inl ⟨rfl, rfl⟩
    · split
      · exact Or.inl ⟨rfl, rfl⟩
      · exact Or.inr ⟨_, r, r', rfl, rfl, hr⟩

/-- What a question asks for does not see the blanks. -/
theorem carries_asked : Carries asked := by
  intro s s' a r hs h
  rw [gives_asked_iff] at h
  rcases respaced_spokenAhead? hs with ⟨hn, hn'⟩ | ⟨x, q, q', hx, hx', hq⟩
  · rw [hn] at h
    have hitem : Carries (do
        let item ← Item.read
        let aliasName ← optionalAlias
        pure (item, aliasName) : Phrase (Item × Option String)) :=
      carries_item.bind fun _ => carries_optionalAlias.bind fun _ => carries_pure _
    obtain ⟨r', h', hr⟩ := hitem.refine _ hs.trim h
    refine ⟨r', gives_asked_iff.mpr ?_, hr⟩
    rw [hn']
    exact h'
  · rw [hx] at h
    obtain ⟨r', h', hr⟩ := carries_spokenRest _ _ _ hq h
    refine ⟨r', gives_asked_iff.mpr ?_, hr⟩
    rw [hx']
    exact h'

/-- A separator is ahead in both texts or in neither. -/
theorem respaced_separator {a : List Char → List Char → Bool}
    (haccept : ∀ {w r r'}, Respaced .outside r r' → a w r = a w r')
    (hs : Respaced .outside s s') :
    (separator a s = none ∧ separator a s' = none) ∨ ∃ t t',
      separator a s = some t ∧ separator a s' = some t' ∧ Respaced .outside t t' := by
  by_cases hc : ∃ u, trim s = ',' :: u
  · obtain ⟨u, hu⟩ := hc
    obtain ⟨t', ht', ht⟩ := hs.trim_mark hu (by decide)
    exact Or.inr ⟨u, t', separator_of_comma hu, separator_of_comma ht', ht⟩
  · have hn : ∀ u, trim s ≠ ',' :: u := fun u hu => hc ⟨u, hu⟩
    rw [separator_of_not_comma hn, separator_of_not_comma (hs.trim.ne_cons (by decide) hn)]
    rcases hs.wordAhead? with ⟨hw, hw'⟩ | ⟨w, r, r', hw, hw', hr⟩
    · rw [hw, hw']
      exact Or.inl ⟨rfl, rfl⟩
    · rw [hw, hw']
      dsimp only
      rw [haccept hr]
      split
      · exact Or.inr ⟨r, r', rfl, rfl, hr⟩
      · exact Or.inl ⟨rfl, rfl⟩

/-- Further items of a question do not see the blanks. -/
theorem carries_askedRest : Carries askedRest := by
  intro s s' l r hs h
  obtain ⟨q, hq, rfl⟩ := gives_askedRest.mp h
  have hsep {s s' : List Char} (hs : Respaced .outside s s') := respaced_separator
    (a := fun w _ => sameWord w "and".toList) (fun _ => rfl) hs
  obtain ⟨q', hq', hr⟩ := hq.respaced_all carries_asked hsep hs
  exact ⟨_, gives_askedRest.mpr ⟨q', hq', rfl⟩, hr.trim⟩

theorem carries_keysRest : Carries keysRest := by
  intro s s' l r hs h
  obtain ⟨q, hq, rfl⟩ := gives_keysRest.mp h
  have hsep {s s' : List Char} (hs : Respaced .outside s s') := respaced_separator
    (a := fun w r =>
      sameWord w "and".toList && !(peekWord r).isEmpty && !isOneOf clauseWords (peekWord r))
    (fun hr => by rw [hr.peekWord]) hs
  obtain ⟨q', hq', hr⟩ := hq.respaced_all carries_fieldName hsep hs
  exact ⟨_, gives_keysRest.mpr ⟨q', hq', rfl⟩, hr.trim⟩

/-- A clause of a question does not see the blanks, or stops. -/
theorem Clauses.carriesOrStops_readClause (c : Clauses) (kind : ClauseKind) :
    CarriesOrStops (c.readClause kind) := by
  cases kind with
  | source => exact carries_datasetName.orStops.map _
  | group => exact carries_fieldName.bind_orStops fun _ => carries_keysRest.orStops.map _
  | filter => exact Condition.carries_read.orStops.map _
  | order => exact (carries_keyword _).bind_orStops fun _ => carriesOrStops_orderList.map _
  | period => exact Period.carries_read.orStops.map _
  | join =>
    refine Carries.orStops ((carries_keyword _).bind fun _ => carries_datasetName.bind fun _ => ?_)
    refine (carries_keyword _).bind fun _ => Condition.carries_read.bind fun _ => ?_
    exact carries_pure _

theorem Clauses.carries_readAll (c : Clauses) : Carries c.readAll := by
  intro s s' d r hs h
  obtain ⟨hrun, rfl⟩ := gives_readAll.mp h
  exact ⟨[], gives_readAll.mpr ⟨hrun.respaced carriesOrStops_readClause hs, rfl⟩, .nil _⟩

theorem carries_readVerb : Carries readVerb := by
  intro s s' u r hs h
  obtain ⟨w, hw, hv⟩ := gives_readVerb.mp h
  obtain ⟨r', hw', hr⟩ := hs.wordAhead?_some hw
  exact ⟨r', gives_readVerb.mpr ⟨w, hw', hv⟩, hr⟩

/-- **Questions** do not see the blanks. -/
theorem carries_read : Carries Question.read := by
  unfold Question.read
  refine carries_readVerb.bind fun _ => (carries_eatWord _).bind fun _ => carries_ite
    (carries_integer.bind fun _ => (carries_pure _).bind fun _ => ?_)
    ((carries_pure _).bind fun _ => ?_)
  -- With or without a limit, the same follows.
  all_goals
    refine carries_asked.bind fun _ => carries_askedRest.bind fun _ => ?_
    refine (Clauses.carries_readAll _).bind fun clauses => ?_
    cases clauses.source with
    | some source => exact carries_pure _
    | none => exact carries_expected _

end Question

/-! ## Pipelines -/

namespace Pipeline

theorem carries_operation (accept : Item → Bool) (what : Expected) :
    Carries (operation accept what) := by
  unfold operation
  refine carries_skipBlanks.bind fun _ => carries_item.refine.bind fun _ => ?_
  exact carries_requiredAlias.bind fun _ => carries_pure _

/-- A comma is ahead in both texts or in neither. -/
theorem respaced_commaAfterBlanks (hs : Respaced .outside s s') :
    (commaAfterBlanks s = none ∧ commaAfterBlanks s' = none) ∨ ∃ t t',
      commaAfterBlanks s = some t ∧ commaAfterBlanks s' = some t' ∧ Respaced .outside t t' := by
  cases ht : commaAfterBlanks s with
  | some t =>
    obtain ⟨t', ht', hrest⟩ := hs.trim_mark (commaAfterBlanks_eq_some.mp ht) (by decide)
    exact Or.inr ⟨t, t', rfl, commaAfterBlanks_eq_some.mpr ht', hrest⟩
  | none =>
    refine Or.inl ⟨rfl, Option.eq_none_iff_forall_ne_some.mpr fun t' ht' => ?_⟩
    refine hs.trim.ne_cons (by decide) (fun t hc => ?_) t' (commaAfterBlanks_eq_some.mp ht')
    rw [commaAfterBlanks_eq_some.mpr hc] at ht
    cases ht

/-- Operations of a stage do not see the blanks. -/
theorem carries_operations (accept : Item → Bool) (what : Expected) :
    Carries (operations accept what) := by
  intro s s' l r hs h
  obtain ⟨op, q, ops, p, hop, hops, rfl, rfl⟩ := gives_operations.mp h
  obtain ⟨q', hop', hq⟩ := carries_operation accept what s hs hop
  obtain ⟨p', hops', hp⟩ :=
    hops.respaced_all (carries_operation accept what) respaced_commaAfterBlanks hq
  exact ⟨_, gives_operations.mpr ⟨op, q', ops, p', hop', hops', rfl, rfl⟩, hp.trim⟩

/-- The body of a stage does not see the blanks, or stops at its end. -/
theorem carriesOrStops_readBody (kind : StageKind) : CarriesOrStops (readBody kind) := by
  cases kind with
  | filter => exact Condition.carries_read.orStops.map _
  | group => exact carriesOrStops_fieldList.map _
  | aggregate => exact (carries_operations _ _).orStops.map _
  | calculate => exact (carries_operations _ _).orStops.map _
  | window => exact (carries_operations _ _).orStops.map _
  | select => exact carriesOrStops_fieldList.map _
  | sort => exact carriesOrStops_orderList.map _
  | join =>
    refine Carries.orStops (carries_datasetName.bind fun _ => ?_)
    refine (carries_mark (by decide)).bind fun _ => Condition.carries_read.bind fun _ => ?_
    exact carries_pure _
  | during => exact Period.carries_read.orStops.map _
  | limit => exact carries_integer.orStops.map _

/-- A stage does not see the blanks. -/
theorem carries_written : Carries written := by
  unfold written opening stageName
  refine carries_skipBlanks.bind fun _ => Carries.bind ?_ fun named => ?_
  · refine carries_identifier.refine.bind fun _ => (carries_mark (by decide)).bind fun _ => ?_
    exact carries_pure _
  · refine (carriesOrStops_readBody named.2).bind (fun _ => ?_) fun _ => refusesComma_close.bind
    exact (carries_mark (by decide)).bind fun _ => carries_pure _

theorem looksAhead_arrow {α : Type} (a b : α) :
    LooksAhead fun
      | '-' :: '>' :: _ => a
      | _ => b where
  two c d t := by
    grind
  gap c t hc := by
    rcases Token.eq_of_isGap hc with rfl | rfl | rfl | rfl | rfl <;> rfl
  beforeGap c d t hd := by
    have hne : d ≠ '>' := by
      rintro rfl
      cases hd
    grind

theorem looksAhead_startsArrow : LooksAhead Token.startsArrow := by
  unfold Token.startsArrow
  exact looksAhead_arrow true false

/-- An arrow is ahead in both texts. -/
theorem exists_arrow (hs : Respaced .outside s s') (h : trim s = '-' :: '>' :: t) :
    ∃ t', trim s' = '-' :: '>' :: t' ∧ Respaced .outside t t' := by
  have ht := hs.trim
  rw [h] at ht
  exact ht.front (l := ['-', '>']) (by decide)

/-- Stages behind one another do not see the blanks. -/
theorem carries_writtenStages : Carries writtenStages := by
  intro s s' ws r hs h
  induction s using writtenStages.induct generalizing s' ws with
  | case1 s t ht _ _ ih =>
    obtain ⟨w, q, ws', hw, hws, rfl⟩ := (gives_writtenStages_arrow ht).mp h
    obtain ⟨t', ht', hrest⟩ := exists_arrow hs ht
    obtain ⟨q', hw', hq⟩ := carries_written _ hrest hw
    obtain ⟨r', hws', hr⟩ := ih q hw.suffix hq hws
    exact ⟨r', (gives_writtenStages_arrow ht').mpr ⟨w, q', ws', hw', hws', rfl⟩, hr⟩
  | case2 s hend =>
    obtain ⟨rfl, rfl⟩ := (gives_writtenStages_end hend).mp h
    have hend' : ∀ t, trim s' ≠ '-' :: '>' :: t := by
      intro t' ht'
      have harrow := Token.startsArrow_eq_true.mpr ⟨t', ht'⟩
      rw [← looksAhead_startsArrow.eq hs.trim] at harrow
      obtain ⟨t, ht⟩ := Token.startsArrow_eq_true.mp harrow
      exact hend t ht
    exact ⟨_, (gives_writtenStages_end hend').mpr ⟨rfl, rfl⟩, hs.trim⟩

theorem carries_readStages (d : Draft) : Carries (readStages d) := by
  intro s s' e r hs h
  obtain ⟨ws, hws, hd⟩ := gives_readStages.mp h
  obtain ⟨r', hws', hr⟩ := carries_writtenStages s hs hws
  exact ⟨r', gives_readStages.mpr ⟨ws, hws', hd⟩, hr⟩

theorem isEmpty_eq (hs : Respaced .outside s s') : s.isEmpty = s'.isEmpty := by
  rcases hs.cases_front with ⟨rfl, rfl⟩ | ⟨_, _, _, _, -, -, rfl, rfl⟩ | ⟨_, _, _, -, rfl, rfl, -⟩
  · rfl
  · rfl
  · rfl

/-- **Pipelines** do not see the blanks. -/
theorem carries_read : Carries Pipeline.read := by
  unfold Pipeline.read
  refine carries_datasetName.bind fun source => carries_skipBlanks.bind fun _ => ?_
  refine Carries.look (fun t => ?_) fun hs => (looksAhead_arrow _ _).eq hs
  split
  · refine (carries_readStages _).bind fun d => Carries.look (fun t => ?_) fun hs => ?_
    · exact carries_ite (carries_pure _) (carries_expected _)
    · rw [isEmpty_eq hs]
  · exact carries_expected _

end Pipeline

/-- **The grammar of every surface form takes the same statement off both texts.** -/
theorem Pattern.carries_grammar (p : Pattern) : Carries p.grammar := by
  cases p with
  | transformTo => exact Transform.carries_read
  | arrowPipeline => exact Pipeline.carries_read
  | naturalQuery => exact Question.carries_read

end DataPhrase
