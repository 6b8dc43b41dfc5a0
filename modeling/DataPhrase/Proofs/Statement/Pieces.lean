/-
# Statements are whole pieces

Every reader of a part of a statement takes whole pieces off its text, up to blanks that it leaves
(`Spanning`). So transform statements and questions are made of whole pieces from end to end, and
pipelines between their arrows.
-/
import DataPhrase.Proofs.Grammar.Pieces
import DataPhrase.Proofs.Pipeline.Stages
import DataPhrase.Proofs.Statement.ClauseRun
import DataPhrase.Proofs.Statement.Question
import DataPhrase.Proofs.Token.Words

namespace DataPhrase

open Text Lexeme Token

variable {α β : Type} {p : Phrase α} {s t q r : List Char}

/-! ## Readers -/

/-- The reader takes whole pieces, up to blanks. -/
def Spanning (p : Phrase α) : Prop :=
  ∀ s a r, (p s).Gives a r → Spans s (trim r)

/-- Blanks in front can be left out. -/
theorem Token.Spans.trim_left (h : Spans s t) (ht : trim t = t) : Spans (trim s) t := by
  induction s with
  | nil => exact h
  | cons c s ih =>
    cases hc : isBlank c with
    | false => rwa [trim_cons_of_not_isBlank hc]
    | true =>
      rw [trim_cons_of_isBlank hc]
      have hpassed : Condition.isPassed c = true := forall_isBlank (by decide) hc
      cases h with
      | refl =>
        -- The text `t` has no blank in front, so it does not start here.
        rw [trim_cons_of_isBlank hc] at ht
        have hlen := (trim_suffix s).length_le
        rw [ht, List.length_cons] at hlen
        exact absurd hlen (Nat.not_succ_le_self _)
      | more _ hx h =>
        rw [piece_of_isPassed hpassed] at hx
        cases hx
        exact ih h

/-- Blanks behind whole pieces change nothing. -/
theorem spans_trim_rest (h : Spans s r) : Spans s (trim r) :=
  h.trans spans_trim

/-- One reading behind another. -/
theorem spans_andThen (h : Spans s (trim q)) (h' : Spans q (trim r)) : Spans s (trim r) :=
  h.trans (h'.trim_left trim_trim)

/-- A reader that takes nothing takes whole pieces. -/
theorem spanning_pure (a : α) : Spanning (pure a : Phrase α) := by
  intro s b r h
  obtain ⟨-, rfl⟩ := Reader.gives_pure.mp h
  exact spans_trim

theorem spanning_expected (e : Expected) : Spanning (expected e : Phrase α) :=
  fun _ _ _ h => absurd h not_gives_expected

/-- Readers of whole pieces can be put one behind the other. -/
theorem Spanning.bind {f : α → Phrase β} (hp : Spanning p) (hf : ∀ a, Spanning (f a)) :
    Spanning (p >>= f) := by
  intro s b r h
  obtain ⟨a, q, ha, hb⟩ := Reader.gives_bind.mp h
  exact spans_andThen (hp s a q ha) (hf a q b r hb)

/-- Settling the value of a reader changes nothing in what it takes. -/
theorem Spanning.refine {f : α → Except Cause β} (hp : Spanning p) : Spanning (p.refine f) := by
  intro s b r h
  obtain ⟨a, ha, -⟩ := Reader.gives_refine.mp h
  exact hp s a r ha

/-- Keeping the text that is taken changes nothing in it. -/
theorem Spanning.withText (hp : Spanning p) : Spanning p.withText := by
  intro s x r h
  exact hp s x.1 r (Reader.gives_withText.mp h).1

/-- Both branches of a choice may take whole pieces. -/
theorem spanning_ite {b : Bool} {p' : Phrase α} (hp : Spanning p) (hp' : Spanning p') :
    Spanning (if b = true then p else p') := by
  cases b with
  | true => exact hp
  | false => exact hp'

theorem spanning_look : Spanning (Reader.look : Phrase (List Char)) := by
  intro s a r h
  obtain ⟨-, rfl⟩ := Reader.gives_look.mp h
  exact spans_trim

theorem spanning_skipBlanks : Spanning skipBlanks := by
  intro s a r h
  rw [gives_skipBlanks] at h
  subst h
  exact spans_trim_rest spans_trim

/-! ## Lexemes -/

/-- The next word is a whole piece. -/
theorem spans_nextWord {x : { x : Read s (List Char) // x.rest.length < s.length }}
    (h : nextWord s = some x) : Spans s (trim x.1.rest) :=
  spans_trim_rest (Condition.spans_wordAhead (wordAhead?_of_some h))

theorem spanning_eatWord (k : String) : Spanning (eatWord k) := by
  intro s b r h
  rcases gives_eatWord.mp h with ⟨ha, -⟩ | ⟨-, rfl, -⟩
  · exact spans_trim_rest (Condition.spans_after ha)
  · exact spans_trim

theorem spanning_keyword (k : String) : Spanning (keyword k) := by
  intro s b r h
  exact spans_trim_rest (Condition.spans_after (gives_keyword.mp h))

/-- A comma is a whole piece, unlike a parenthesis on its own. -/
theorem spanning_comma : Spanning (mark ",") := by
  intro s a r h
  have hs : trim s = ',' :: r := gives_mark.mp h
  have hcomma : Spans (trim s) r := by
    rw [hs]
    exact spans_cons (by decide) (startsArrow_of_ne (by decide))
  exact (spans_trim.trans hcomma).trans spans_trim

/-- Identifiers are whole pieces. -/
theorem spanning_identifier : Spanning identifier := by
  intro s n r h
  obtain ⟨w, hw, -⟩ := gives_identifier.mp h
  exact spans_trim_rest (Condition.spans_wordAhead hw)

/-- Names with points are whole pieces. -/
theorem spanning_fieldName : Spanning fieldName := by
  intro s n r h
  obtain ⟨w, q, hw, rfl, -⟩ := gives_fieldName.mp h
  exact spans_trim_rest ((Condition.spans_wordAhead hw).trans (spans_dotted q))

theorem spanning_datasetName : Spanning datasetName :=
  fun s n r h => spanning_fieldName s n r (gives_datasetName.mp h)

/-- Whole numbers are whole pieces. -/
theorem spanning_integer : Spanning integer := by
  refine spanning_skipBlanks.bind fun _ => Spanning.refine ?_
  intro s ds r h
  obtain ⟨-, rfl⟩ := Reader.gives_takeWhile.mp h
  refine spans_trim_rest (spans_dropWhile fun c hc => ⟨?_, ?_⟩)
  · exact Condition.isPassed_of_isNumberChar ((Bool.or_eq_true _ _).mpr (Or.inl hc))
  · rintro rfl
    revert hc
    decide

/-! ## Parentheses -/

/-- The reader takes whole pieces and the parenthesis that closes them, then whole pieces again. -/
def Closing (p : Phrase α) : Prop :=
  ∀ s a r, (p s).Gives a r → ∃ q, Spans s (')' :: q) ∧ Spans q (trim r)

/-- A closing parenthesis ends a group that was open. -/
theorem closing_close {f : Unit → Phrase α} (hf : Spanning (f ())) :
    Closing (mark ")" >>= f) := by
  intro s a r h
  obtain ⟨_, q, hq, h⟩ := Reader.gives_bind.mp h
  have hs : trim s = ')' :: q := gives_mark.mp hq
  exact ⟨q, hs ▸ spans_trim, hf q a r h⟩

/-- Whole pieces may stand in front of the closing parenthesis. -/
theorem Spanning.closing {f : α → Phrase β} (hp : Spanning p) (hf : ∀ a, Closing (f a)) :
    Closing (p >>= f) := by
  intro s b r h
  obtain ⟨a, q, ha, hb⟩ := Reader.gives_bind.mp h
  obtain ⟨u, hu, hr⟩ := hf a q b r hb
  have hclose : trim (')' :: u) = ')' :: u := trim_cons_of_not_isBlank (by decide)
  exact ⟨u, (hp s a q ha).trans (hu.trim_left hclose), hr⟩

theorem closing_ite {b : Bool} {p' : Phrase α} (hp : Closing p) (hp' : Closing p') :
    Closing (if b = true then p else p') := by
  cases b with
  | true => exact hp
  | false => exact hp'

/-- What closes a parenthesis takes whole pieces behind it. -/
theorem Closing.spans (hp : Closing p) {a : α} (hs : trim s = '(' :: q) (h : (p q).Gives a r) :
    Spans s (trim r) := by
  obtain ⟨u, hu, hr⟩ := hp q a r h
  have hgroup : Spans (trim s) u := by
    rw [hs]
    exact spans_group hu
  exact (spans_trim.trans hgroup).trans hr

/-- A group is a whole piece once its parenthesis is closed. -/
theorem spanning_open {f : Unit → Phrase α} (hf : Closing (f ())) : Spanning (mark "(" >>= f) := by
  intro s a r h
  obtain ⟨_, q, hq, h⟩ := Reader.gives_bind.mp h
  exact hf.spans (gives_mark.mp hq) h

/-! ## Lists -/

/-- Repeated items with separators between them are whole pieces. -/
theorem spans_repeats {sep : List Char → Option (List Char)} {l : List α} (hp : Spanning p)
    (hsep : ∀ s t, sep s = some t → Spans s t) (h : Repeats sep p s l r) : Spans s (trim r) := by
  induction h with
  | stop => exact spans_trim
  | next h ha _ ih => exact spans_andThen ((hsep _ _ h).trans (hp _ _ _ ha)) ih

/-- The comma of a list, with the characters of a class in front. -/
theorem spans_comma {f : Char → Bool} (hf : ∀ c, f c = true → isBlank c = true)
    (h : s.dropWhile f = ',' :: t) : Spans s t := by
  have hblank : Spans s (s.dropWhile f) := spans_dropWhile fun c hc => by
    have hc := forall_isBlank (p := fun c => Condition.isPassed c && c != '-') (by decide) (hf c hc)
    rw [Bool.and_eq_true, bne_iff_ne] at hc
    exact hc
  rw [h] at hblank
  exact hblank.trans (spans_cons (by decide) (startsArrow_of_ne (by decide)))

/-- Lists of whole pieces are whole pieces. -/
theorem Spanning.listOf (hp : Spanning p) : Spanning (listOf p) := by
  intro s l r h
  obtain ⟨a, q, l', ha, hl, -⟩ := gives_listOf.mp h
  refine spans_andThen (hp s a q ha) (spans_repeats hp ?_ hl)
  exact fun s t ht => spans_comma (fun _ => isBlank_of_isListGap) (commaAfterGap_eq_some.mp ht)

/-! ## Expressions, conditions and items -/

/-- Expressions are whole pieces. -/
theorem spanning_expr : Spanning Expr.read := by
  intro s e r h
  exact spans_trim_rest (spans_trim.trans (Expr.spans_of_derives (Expr.gives_read_iff.mp h)))

/-- Conditions are whole pieces. -/
theorem spanning_condition : Spanning Condition.read := by
  intro s c r h
  exact spans_trim.trans (Condition.spans_of_derives (Condition.gives_read_iff.mp ⟨r, h, rfl⟩))

/-- A sort key is whole pieces. -/
theorem spanning_orderItem : Spanning OrderItem.read := by
  unfold OrderItem.read
  refine spanning_fieldName.bind fun _ => ?_
  refine (spanning_eatWord _).bind fun _ => spanning_ite (spanning_pure _) ?_
  refine (spanning_eatWord _).bind fun _ => spanning_ite (spanning_pure _) ?_
  refine (spanning_eatWord _).bind fun _ => spanning_ite (spanning_pure _) ?_
  exact (spanning_eatWord _).bind fun _ => spanning_ite (spanning_pure _) (spanning_pure _)

/-- A list of fields is whole pieces. -/
theorem spanning_fieldList : Spanning fieldList :=
  spanning_fieldName.listOf

/-- A list of sort keys is whole pieces. -/
theorem spanning_orderList : Spanning orderList :=
  spanning_orderItem.listOf

/-- The parentheses behind `over` are paired. -/
theorem spanning_overClause : Spanning Item.overClause := by
  unfold Item.overClause
  refine spanning_open ?_
  -- From the back: the closing parenthesis, the sort keys before it, the partition keys before them.
  have hby : ∀ p o, Closing (do mark ")"; pure (p, o) : Phrase (List String × List OrderItem)) :=
    fun _ _ => closing_close (spanning_pure _)
  have horder : ∀ p, Closing (do
      let o ← if (← eatWord "order") then do
          keyword "by"
          orderList
        else pure []
      mark ")"
      pure (p, o) : Phrase (List String × List OrderItem)) := by
    intro p
    refine (spanning_eatWord _).closing fun _ => closing_ite ?_ ?_
    · exact (spanning_keyword _).closing fun _ => spanning_orderList.closing fun _ => hby p _
    · exact (spanning_pure _).closing fun _ => hby p _
  refine (spanning_eatWord _).closing fun _ => closing_ite ?_ ?_
  · exact (spanning_keyword _).closing fun _ => spanning_fieldList.closing fun _ => horder _
  · exact (spanning_pure _).closing fun _ => horder _

/-- Items are whole pieces. -/
theorem spanning_item : Spanning Item.read := by
  unfold Item.read
  refine spanning_skipBlanks.bind fun _ => spanning_expr.refine.bind fun item => ?_
  cases item with
  | window f e p o =>
    refine (spanning_eatWord _).bind fun _ => spanning_ite ?_ (spanning_pure _)
    exact spanning_overClause.bind fun _ => spanning_pure _
  | aggregate f e => exact spanning_pure _
  | calculate e => exact spanning_pure _

/-- A required alias is whole pieces. -/
theorem spanning_requiredAlias : Spanning requiredAlias := by
  unfold requiredAlias
  refine spanning_skipBlanks.bind fun _ => (spanning_eatWord _).bind fun _ => ?_
  exact spanning_ite spanning_identifier (spanning_expected _)

/-- A named operation is whole pieces. -/
theorem spanning_operation : Spanning Operation.read := by
  unfold Operation.read
  exact spanning_item.bind fun _ => spanning_requiredAlias.bind fun _ => spanning_pure _

/-! ## Periods -/

namespace Period

/-- A word in front that stands for a value. -/
def ofWord (f : List Char → Option α) (e : Expected) : Phrase α := fun s =>
  match nextWord s with
  | none => .stop (.unexpected (some e)) (trim s) (trim_suffix s)
  | some x =>
    match f x.1.value with
    | some a => .ok (x.1.map fun _ => a)
    | none => .stop (.unexpected (some e)) (trim s) (trim_suffix s)

/-- The anchor of a period is one of the words that stand for an alignment. -/
theorem readAnchor_eq : readAnchor = ofWord anchor? .timePeriod := by
  funext s
  unfold readAnchor ofWord
  cases nextWord s with
  | none => rfl
  | some x =>
    dsimp only
    cases anchor? x.1.value <;> rfl

/-- The unit of a period is one of the words for units. -/
theorem readUnit_eq : readUnit = ofWord TimeUnit.ofWord? .timeUnit := by
  funext s
  unfold readUnit ofWord
  cases nextWord s with
  | none => rfl
  | some x =>
    dsimp only
    cases TimeUnit.ofWord? x.1.value <;> rfl

/-- A reader of special words takes the word in front if it is one of them. -/
theorem gives_ofWord {f : List Char → Option α} {e : Expected} {a : α} :
    (ofWord f e s).Gives a r ↔ ∃ w, wordAhead? s = some (w, r) ∧ f w = some a := by
  unfold ofWord
  rcases nextWord_cases s with ⟨hn, hw⟩ | ⟨x, hn, hw⟩
  · rw [hn, hw]
    refine iff_of_false Outcome.not_gives_stop ?_
    rintro ⟨w, h, -⟩
    cases h
  · rw [hn, hw]
    dsimp only
    constructor
    · intro h
      split at h
      · next b hb =>
        obtain ⟨rfl, rfl⟩ := Outcome.gives_ok.mp h
        exact ⟨_, rfl, hb⟩
      · exact absurd h Outcome.not_gives_stop
    · rintro ⟨w, h, ha⟩
      cases h
      rw [ha]
      exact Outcome.gives_ok.mpr ⟨rfl, rfl⟩

theorem spanning_ofWord (f : List Char → Option α) (e : Expected) : Spanning (ofWord f e) := by
  intro s a r h
  obtain ⟨w, hw, -⟩ := gives_ofWord.mp h
  exact spans_trim_rest (Condition.spans_wordAhead hw)

theorem spanning_readAmount (a : Alignment) : Spanning (readAmount a) := by
  unfold readAmount
  refine spanning_skipBlanks.bind fun _ => spanning_look.bind fun t => ?_
  intro s n r h
  dsimp only at h
  split at h
  · refine (spanning_integer.bind fun m => ?_) s n r h
    split
    · exact spanning_pure _
    · exact spanning_expected _
  · exact spanning_pure _ s n r h

/-- Periods are whole pieces. -/
theorem spanning_read : Spanning read := by
  unfold read
  refine spanning_skipBlanks.bind fun _ => Spanning.bind (Spanning.withText ?_) fun x => ?_
  · rw [readAnchor_eq, readUnit_eq]
    refine (spanning_ofWord _ _).bind fun a => (spanning_readAmount a).bind fun _ => ?_
    exact (spanning_ofWord _ _).bind fun _ => spanning_pure _
  · refine (spanning_eatWord _).bind fun _ => spanning_ite ?_ ?_
    · exact spanning_fieldName.bind fun _ => spanning_pure _
    · exact (spanning_pure _).bind fun _ => spanning_pure _

end Period

/-! ## Clauses -/

/-- If every clause takes whole pieces, so do clause after clause. -/
theorem ClauseForm.Run.spans {C K : Type} {f : ClauseForm C K} {c d : C} (h : f.Run c s d)
    (hf : ∀ c kind, Spanning (f.read c kind)) : Spans s [] := by
  induction h with
  | @stop c s hs =>
    rw [← hs]
    exact spans_trim
  | next hw _ _ hd _ ih =>
    have hword := spans_trim_rest (Condition.spans_wordAhead hw)
    exact spans_andThen (r := []) hword (spans_andThen (r := []) (hf _ _ _ _ _ hd) ih)

/-! ## Transform statements -/

namespace Transform.Clauses

/-- The clauses of a transform statement are whole pieces. -/
theorem spanning_readClause (c : Clauses) (kind : ClauseKind) : Spanning (c.readClause kind) := by
  cases kind with
  | join =>
    refine (spanning_keyword _).bind fun _ => spanning_datasetName.bind fun _ => ?_
    refine (spanning_keyword _).bind fun _ => spanning_condition.bind fun _ => ?_
    exact spanning_pure _
  | operations => exact spanning_operation.listOf.bind fun _ => spanning_pure _
  | group =>
    exact (spanning_keyword _).bind fun _ => spanning_fieldList.bind fun _ => spanning_pure _
  | filter => exact spanning_condition.bind fun _ => spanning_pure _
  | order =>
    exact (spanning_keyword _).bind fun _ => spanning_orderList.bind fun _ => spanning_pure _
  | select => exact spanning_fieldList.bind fun _ => spanning_pure _
  | period => exact Period.spanning_read.bind fun _ => spanning_pure _
  | limit => exact spanning_integer.bind fun _ => spanning_pure _

/-- So are all of them behind one another. -/
theorem spanning_readAll (c : Clauses) : Spanning c.readAll := by
  intro s d r h
  obtain ⟨hrun, rfl⟩ := gives_readAll.mp h
  exact hrun.spans spanning_readClause

end Transform.Clauses

/-! ## Questions -/

namespace Question

/-- An optional alias is whole pieces. -/
theorem spanning_optionalAlias : Spanning optionalAlias := by
  unfold optionalAlias
  refine (spanning_eatWord _).bind fun _ => spanning_ite ?_ (spanning_pure _)
  exact spanning_identifier.bind fun _ => spanning_pure _

/-- What follows a spoken aggregate is whole pieces. -/
theorem spanning_spokenRest (w : List Char) (f : AggregateFn) : Spanning (spokenRest w f) := by
  unfold spokenRest
  exact spanning_fieldName.bind fun _ => spanning_optionalAlias.bind fun _ => spanning_pure _

/-- The words of a spoken aggregate are whole pieces. -/
theorem spans_spokenAggregate {x : Read s (List Char × AggregateFn)}
    (h : spokenAggregate? s = some x) : Spans s (trim x.rest) := by
  unfold spokenAggregate? at h
  split at h
  · cases h
  · next y _ hy =>
    split at h
    · cases h
    · dsimp only at h
      split at h
      · cases h
      · cases h
        exact spans_nextWord hy

/-- What a question asks for is whole pieces. -/
theorem spanning_asked : Spanning asked := by
  intro s a r h
  rw [asked] at h
  split at h
  · next x hx =>
    have hrest := spanning_spokenRest _ _ _ _ _ (Outcome.gives_widen.mp h)
    exact spans_andThen (spans_spokenAggregate hx) hrest
  · refine spans_trim.trans (Spanning.refine ?_ _ _ _ (Outcome.gives_widen.mp h))
    exact spanning_item.bind fun _ => spanning_optionalAlias.bind fun _ => spanning_pure _

/-- The comma or the word between two items is whole pieces. -/
theorem spans_separator {accept : List Char → List Char → Bool} (h : separator accept s = some t) :
    Spans s t := by
  by_cases hc : ∃ u, trim s = ',' :: u
  · obtain ⟨u, hu⟩ := hc
    rw [separator_of_comma hu] at h
    cases h
    exact spans_comma (fun _ h => h) hu
  · rw [separator_of_not_comma fun u hu => hc ⟨u, hu⟩] at h
    split at h
    · next w u hw =>
      split at h
      · cases h
        exact Condition.spans_wordAhead hw
      · cases h
    · cases h

theorem spanning_askedRest : Spanning askedRest := by
  intro s l r h
  obtain ⟨q, hq, rfl⟩ := gives_askedRest.mp h
  exact spans_trim_rest (spans_repeats spanning_asked (fun _ _ => spans_separator) hq)

/-- Further keys of a question are whole pieces. -/
theorem spanning_keysRest : Spanning keysRest := by
  intro s l r h
  obtain ⟨q, hq, rfl⟩ := gives_keysRest.mp h
  exact spans_trim_rest (spans_repeats spanning_fieldName (fun _ _ => spans_separator) hq)

namespace Clauses

/-- The clauses of a question are whole pieces. -/
theorem spanning_readClause (c : Clauses) (kind : ClauseKind) : Spanning (c.readClause kind) := by
  cases kind with
  | source => exact spanning_datasetName.bind fun _ => spanning_pure _
  | group =>
    exact spanning_fieldName.bind fun _ => spanning_keysRest.bind fun _ => spanning_pure _
  | filter => exact spanning_condition.bind fun _ => spanning_pure _
  | order =>
    exact (spanning_keyword _).bind fun _ => spanning_orderList.bind fun _ => spanning_pure _
  | period => exact Period.spanning_read.bind fun _ => spanning_pure _
  | join =>
    refine (spanning_keyword _).bind fun _ => spanning_datasetName.bind fun _ => ?_
    refine (spanning_keyword _).bind fun _ => spanning_condition.bind fun _ => ?_
    exact spanning_pure _

/-- Clauses are whole pieces. -/
theorem spanning_readAll (c : Clauses) : Spanning c.readAll := by
  intro s d r h
  obtain ⟨hrun, rfl⟩ := gives_readAll.mp h
  exact hrun.spans spanning_readClause

end Clauses

/-- The body of a question is whole pieces. -/
theorem spans_body {limit : Option Nat} {st : Statement} (h : GivesBody limit s st r) :
    Spans s (trim r) := by
  obtain ⟨first, items, clauses, source, p, q, hf, hi, hc, -⟩ := h
  have hfirst := spanning_asked s first p hf
  have hitems := spanning_askedRest p items q hi
  exact spans_andThen hfirst (spans_andThen hitems (Clauses.spanning_readAll {} q clauses r hc))

theorem spans_limit {limit : Option Nat} (h : GivesLimit s limit r) : Spans s (trim r) := by
  rcases h with ⟨q, n, hq, hn, -⟩ | ⟨-, -, rfl⟩
  · have htop : Spans s (trim q) := spans_trim_rest (Condition.spans_after hq)
    exact spans_andThen htop (spanning_integer q n r hn)
  · exact spans_trim

end Question

/-! ## Pipelines -/

namespace Pipeline

theorem spanning_operation (accept : Item → Bool) (what : Expected) :
    Spanning (operation accept what) := by
  unfold operation
  refine spanning_skipBlanks.bind fun _ => spanning_item.refine.bind fun _ => ?_
  exact spanning_requiredAlias.bind fun _ => spanning_pure _

/-- The operations of a stage are whole pieces. -/
theorem spanning_operations (accept : Item → Bool) (what : Expected) :
    Spanning (operations accept what) := by
  intro s l r h
  obtain ⟨op, q, ops, p, hop, hops, rfl, -⟩ := gives_operations.mp h
  have hcomma : ∀ s t, commaAfterBlanks s = some t → Spans s t :=
    fun s t ht => spans_comma (fun _ h => h) (commaAfterBlanks_eq_some.mp ht)
  have hrest := spans_repeats (spanning_operation accept what) hcomma hops
  exact spans_trim_rest (spans_andThen (spanning_operation accept what s op q hop) hrest)

/-- What stands in the parentheses of a stage is whole pieces. -/
theorem spanning_readBody (kind : StageKind) : Spanning (readBody kind) := by
  cases kind with
  | filter => exact spanning_condition.bind fun _ => spanning_pure _
  | group => exact spanning_fieldList.bind fun _ => spanning_pure _
  | aggregate => exact (spanning_operations _ _).bind fun _ => spanning_pure _
  | calculate => exact (spanning_operations _ _).bind fun _ => spanning_pure _
  | window => exact (spanning_operations _ _).bind fun _ => spanning_pure _
  | select => exact spanning_fieldList.bind fun _ => spanning_pure _
  | sort => exact spanning_orderList.bind fun _ => spanning_pure _
  | join =>
    refine spanning_datasetName.bind fun _ => spanning_comma.bind fun _ => ?_
    exact spanning_condition.bind fun _ => spanning_pure _
  | during => exact Period.spanning_read.bind fun _ => spanning_pure _
  | limit => exact spanning_integer.bind fun _ => spanning_pure _

/-- A stage with its parentheses is a whole piece. -/
theorem spanning_written : Spanning written := by
  intro s w r h
  obtain ⟨_, u, hu, h⟩ := Reader.gives_bind.mp h
  rw [gives_skipBlanks] at hu
  subst hu
  obtain ⟨named, v, hv, h⟩ := Reader.gives_bind.mp h
  obtain ⟨name, x, hx, hv⟩ := Reader.gives_bind.mp hv
  obtain ⟨_, y, hy, hv⟩ := Reader.gives_bind.mp hv
  obtain ⟨rfl, rfl⟩ := Reader.gives_pure.mp hv
  have hname : Spans (trim s) (trim x) := spanning_identifier.refine _ _ _ hx
  have hbody : Closing (do
      let body ← readBody name.2
      mark ")"
      pure (⟨name.1, name.2, body⟩ : Written)) :=
    (spanning_readBody name.2).closing fun _ => closing_close (spanning_pure _)
  exact spans_trim.trans (spans_andThen hname (hbody.spans (gives_mark.mp hy) h))

/-- Stages behind one another are whole pieces. -/
theorem spanning_stage (d : Draft) : Spanning (stage d) := by
  intro s e r h
  obtain ⟨w, hw, -⟩ := gives_stage.mp h
  exact spanning_written s w r hw

end Pipeline

end DataPhrase
