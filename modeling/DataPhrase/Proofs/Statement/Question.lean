/-
# What the grammar of questions gives

The reading of a question taken apart into the readings of its verb, number of rows, items and
clauses.
-/
import DataPhrase.Proofs.Statement.Item
import DataPhrase.Statement.Question

namespace DataPhrase.Question

open Text Lexeme

variable {s r : List Char}

/-! ## Items -/

/-- The aggregate in front that is followed by a field, with its word and what follows it. -/
def spokenAhead? (s : List Char) : Option ((List Char × AggregateFn) × List Char) :=
  match wordAhead? s with
  | none => none
  | some (w, r) =>
    match AggregateFn.ofName? (String.ofList w) with
    | none => none
    | some f =>
      if (peekWord r).isEmpty || isOneOf clauseWords (peekWord r) then none else some ((w, f), r)

theorem map_spokenAggregate? :
    (spokenAggregate? s).map (fun x => (x.value, x.rest)) = spokenAhead? s := by
  unfold spokenAggregate? spokenAhead?
  rcases nextWord_cases s with ⟨hn, hw⟩ | ⟨⟨x, hlt⟩, hn, hw⟩
  · rw [hn, hw]
    rfl
  · rw [hn, hw]
    dsimp only
    cases AggregateFn.ofName? (String.ofList x.value) with
    | none => rfl
    | some f =>
      dsimp only
      split <;> rfl

/-- An asked item is a spoken aggregate with the rest of its phrase, or an item as elsewhere. -/
theorem gives_asked_iff {a : Asked} : (asked s).Gives a r ↔
    match spokenAhead? s with
    | some (x, q) => (spokenRest x.1 x.2 q).Gives a r
    | none => (Reader.refine (do
        let item ← Item.read
        let aliasName ← optionalAlias
        pure (item, aliasName)) Asked.ofItem (trim s)).Gives a r := by
  rw [asked, ← map_spokenAggregate?]
  cases spokenAggregate? s with
  | none => exact Outcome.gives_widen
  | some x => exact Outcome.gives_widen

/-- An optional alias is read where `as` stands, and only there. -/
theorem gives_optionalAlias {a : Option String} : (optionalAlias s).Gives a r ↔
    (∃ q n, after? "as" s = some q ∧ (identifier q).Gives n r ∧ a = some n) ∨
      (after? "as" s = none ∧ a = none ∧ s = r) := by
  unfold optionalAlias
  rw [Reader.gives_bind]
  constructor
  · rintro ⟨b, q, hb, h⟩
    rcases gives_eatWord.mp hb with ⟨hq, rfl⟩ | ⟨hs, rfl, rfl⟩
    · rw [if_pos rfl] at h
      obtain ⟨n, v, hn, h⟩ := Reader.gives_bind.mp h
      obtain ⟨rfl, rfl⟩ := Reader.gives_pure.mp h
      exact Or.inl ⟨q, n, hq, hn, rfl⟩
    · rw [if_neg Bool.false_ne_true] at h
      obtain ⟨rfl, rfl⟩ := Reader.gives_pure.mp h
      exact Or.inr ⟨hs, rfl, rfl⟩
  · rintro (⟨q, n, hq, hn, rfl⟩ | ⟨hs, rfl, rfl⟩)
    · refine ⟨true, q, gives_eatWord.mpr (Or.inl ⟨hq, rfl⟩), ?_⟩
      rw [if_pos rfl]
      exact Reader.gives_bind.mpr ⟨n, r, hn, Reader.gives_pure.mpr ⟨rfl, rfl⟩⟩
    · refine ⟨false, s, gives_eatWord.mpr (Or.inr ⟨hs, rfl, rfl⟩), ?_⟩
      rw [if_neg Bool.false_ne_true]
      exact Reader.gives_pure.mpr ⟨rfl, rfl⟩

/-- An item that is not spoken is an item with an alias or without. -/
theorem gives_asked_item {a : Asked} (hs : spokenAhead? s = none) : (asked s).Gives a r ↔
    ∃ item n q, (Item.read s).Gives item q ∧ (optionalAlias q).Gives n r ∧
      Asked.ofItem (item, n) = .ok a := by
  rw [gives_asked_iff, hs]
  dsimp only
  rw [Reader.gives_refine]
  constructor
  · rintro ⟨x, hx, ha⟩
    obtain ⟨item, q, hi, h⟩ := Reader.gives_bind.mp hx
    obtain ⟨n, v, hn, h⟩ := Reader.gives_bind.mp h
    obtain ⟨rfl, rfl⟩ := Reader.gives_pure.mp h
    exact ⟨item, n, q, Item.gives_read_trim.mp hi, hn, ha⟩
  · rintro ⟨item, n, q, hi, hn, ha⟩
    exact ⟨(item, n), Reader.gives_bind.mpr ⟨item, q, Item.gives_read_trim.mpr hi,
      Reader.gives_bind.mpr ⟨n, r, hn, Reader.gives_pure.mpr ⟨rfl, rfl⟩⟩⟩, ha⟩

/-- A spoken aggregate is named by one of the words for aggregates. -/
theorem ofName?_of_spokenAhead? {w : List Char} {f : AggregateFn}
    (h : spokenAhead? s = some ((w, f), r)) : AggregateFn.ofName? (String.ofList w) = some f := by
  unfold spokenAhead? at h
  split at h
  · cases h
  · split at h
    · cases h
    · next hf =>
      split at h
      · cases h
      · cases h
        exact hf

/-- What is asked for is an aggregate in front of a field, or an item. -/
theorem asked_cases {a : Asked} (h : (asked s).Gives a r) :
    (∃ w f q, AggregateFn.ofName? (String.ofList w) = some f ∧ spokenAhead? s = some ((w, f), q) ∧
      (spokenRest w f q).Gives a r) ∨
    (spokenAhead? s = none ∧ ∃ item n q, (Item.read s).Gives item q ∧
      (optionalAlias q).Gives n r ∧ Asked.ofItem (item, n) = .ok a) := by
  cases hs : spokenAhead? s with
  | none => exact Or.inr ⟨rfl, (gives_asked_item hs).mp h⟩
  | some x =>
    obtain ⟨⟨w, f⟩, q⟩ := x
    rw [gives_asked_iff, hs] at h
    exact Or.inl ⟨w, f, q, ofName?_of_spokenAhead? hs, rfl, h⟩

/-! ## Lists -/

/-- The text after a comma, or after a word that `accept` lets stand for one. -/
def separator (accept : List Char → List Char → Bool) (s : List Char) : Option (List Char) :=
  match trim s with
  | ',' :: t => some t
  | _ =>
    match wordAhead? s with
    | some (w, r) => if accept w r then some r else none
    | none => none

/-- Items are parted by commas and by `and`. -/
def itemSeparator : List Char → Option (List Char) :=
  separator fun w _ => sameWord w "and".toList

/-- Keys are parted by commas and by an `and` that is not followed by a clause. -/
def keySeparator : List Char → Option (List Char) :=
  separator fun w r =>
    sameWord w "and".toList && !(peekWord r).isEmpty && !isOneOf clauseWords (peekWord r)

section Separator

variable {accept : List Char → List Char → Bool} {t w : List Char}

/-- A comma parts two items. -/
theorem separator_of_comma (h : trim s = ',' :: t) : separator accept s = some t := by
  rw [separator, h]
  rfl

/-- Without a comma, a word parts two items if it is accepted. -/
theorem separator_of_not_comma (h : ∀ t, trim s ≠ ',' :: t) : separator accept s =
    match wordAhead? s with
    | some (w, r) => if accept w r then some r else none
    | none => none := by
  unfold separator
  split
  · next u hu => exact absurd hu (h u)
  · rfl

/-- What parts two items is not empty. -/
theorem length_lt_of_separator (h : separator accept s = some t) : t.length < s.length := by
  by_cases hc : ∃ u, trim s = ',' :: u
  · obtain ⟨u, hu⟩ := hc
    rw [separator_of_comma hu] at h
    cases h
    exact length_lt_of_trim hu
  · rw [separator_of_not_comma fun u hu => hc ⟨u, hu⟩] at h
    rcases nextWord_cases s with ⟨-, hw⟩ | ⟨x, -, hw⟩
    · rw [hw] at h
      cases h
    · rw [hw] at h
      dsimp only at h
      split at h
      · cases h
        exact x.2
      · cases h

end Separator

/-- The rest of the items is a repetition of a separator and an item. -/
theorem gives_askedRest {items : List Asked} : (askedRest s).Gives items r ↔
    ∃ q, Repeats itemSeparator asked s items q ∧ trim q = r := by
  refine gives_iff_repeats (fun _ _ => length_lt_of_separator) ?_
  intro s l r
  rw [askedRest.eq_def, itemSeparator]
  split
  · next t ht =>
    rw [separator_of_comma ht]
    exact gives_item
  · next hn =>
    rw [separator_of_not_comma fun u hu => hn u hu]
    split
    · next hw =>
      rw [wordAhead?_of_none hw]
      exact Outcome.gives_done
    · next x hx hw =>
      rw [wordAhead?_of_some hw]
      dsimp only
      split
      · exact gives_item
      · exact Outcome.gives_done

/-- The rest of the keys is a repetition of a separator and a name. -/
theorem gives_keysRest {keys : List String} : (keysRest s).Gives keys r ↔
    ∃ q, Repeats keySeparator fieldName s keys q ∧ trim q = r := by
  refine gives_iff_repeats (fun _ _ => length_lt_of_separator) ?_
  intro s l r
  rw [keysRest.eq_def, keySeparator]
  split
  · next t ht =>
    rw [separator_of_comma ht]
    exact gives_item
  · next hn =>
    rw [separator_of_not_comma fun u hu => hn u hu]
    split
    · next hw =>
      rw [wordAhead?_of_none hw]
      exact Outcome.gives_done
    · next x hx hw =>
      rw [wordAhead?_of_some hw]
      dsimp only
      split
      · exact gives_item
      · exact Outcome.gives_done

/-! ## Statements -/

/-- A question opens with one of its verbs. -/
theorem gives_readVerb : (readVerb s).Gives () r ↔
    ∃ w, wordAhead? s = some (w, r) ∧ isOneOf verbs w = true := by
  unfold readVerb
  rcases nextWord_cases s with ⟨hn, hw⟩ | ⟨x, hn, hw⟩
  · rw [hn, hw]
    refine iff_of_false Outcome.not_gives_stop ?_
    rintro ⟨w, h, -⟩
    cases h
  · rw [hn, hw]
    dsimp only
    cases hv : isOneOf verbs x.1.value with
    | false =>
      refine iff_of_false Outcome.not_gives_stop ?_
      rintro ⟨w, h, hw⟩
      cases h
      rw [hv] at hw
      cases hw
    | true =>
      constructor
      · intro h
        obtain ⟨-, rfl⟩ := Outcome.gives_ok.mp h
        exact ⟨_, rfl, hv⟩
      · rintro ⟨w, h, -⟩
        cases h
        exact Outcome.gives_ok.mpr ⟨rfl, rfl⟩

/-- The number of rows behind the verb: after `top`, or none. -/
def GivesLimit (s : List Char) (limit : Option Nat) (r : List Char) : Prop :=
  (∃ q n, after? "top" s = some q ∧ (integer q).Gives n r ∧ limit = some n) ∨
    (after? "top" s = none ∧ limit = none ∧ s = r)

/-- What stands behind the number of rows: items, then clauses with a source. -/
def GivesBody (limit : Option Nat) (s : List Char) (st : Statement) (r : List Char) : Prop :=
  ∃ first items clauses source p q, (asked s).Gives first p ∧ (askedRest p).Gives items q ∧
    (Clauses.readAll {} q).Gives clauses r ∧ clauses.source = some source ∧
    statement source limit (first :: items) clauses = st

/-- The body of a question is its items, its clauses and its source. -/
theorem gives_body {limit : Option Nat} {st : Statement} :
    ((do
      let first ← asked
      let rest ← askedRest
      let clauses ← Clauses.readAll {}
      match clauses.source with
      | some source => pure (statement source limit (first :: rest) clauses)
      | none => expected (.word "from") : Phrase Statement) s).Gives st r ↔
      GivesBody limit s st r := by
  constructor
  · intro h
    obtain ⟨first, p, hf, h⟩ := Reader.gives_bind.mp h
    obtain ⟨items, q, hi, h⟩ := Reader.gives_bind.mp h
    obtain ⟨clauses, u, hc, h⟩ := Reader.gives_bind.mp h
    cases hs : clauses.source with
    | none =>
      simp only [hs] at h
      exact absurd h not_gives_expected
    | some source =>
      simp only [hs] at h
      obtain ⟨rfl, rfl⟩ := Reader.gives_pure.mp h
      exact ⟨first, items, clauses, source, p, q, hf, hi, hc, hs, rfl⟩
  · rintro ⟨first, items, clauses, source, p, q, hf, hi, hc, hs, rfl⟩
    refine Reader.gives_bind.mpr ⟨first, p, hf, Reader.gives_bind.mpr ⟨items, q, hi,
      Reader.gives_bind.mpr ⟨clauses, r, hc, ?_⟩⟩⟩
    simp only [hs]
    exact Reader.gives_pure.mpr ⟨rfl, rfl⟩

/-- A question is a verb, an optional limit and a body. -/
theorem gives_read {st : Statement} : (read s).Gives st r ↔
    ∃ p limit q, (readVerb s).Gives () p ∧ GivesLimit p limit q ∧ GivesBody limit q st r := by
  unfold read
  rw [Reader.gives_bind]
  constructor
  · rintro ⟨_, p, hp, h⟩
    obtain ⟨b, q, hb, h⟩ := Reader.gives_bind.mp h
    rcases gives_eatWord.mp hb with ⟨ht, rfl⟩ | ⟨ht, rfl, rfl⟩
    · rw [if_pos rfl] at h
      obtain ⟨n, u, hn, h⟩ := Reader.gives_bind.mp h
      obtain ⟨_, _, hs, h⟩ := Reader.gives_bind.mp h
      obtain ⟨rfl, rfl⟩ := Reader.gives_pure.mp hs
      exact ⟨p, some n, u, hp, Or.inl ⟨q, n, ht, hn, rfl⟩, gives_body.mp h⟩
    · rw [if_neg Bool.false_ne_true] at h
      obtain ⟨_, _, hs, h⟩ := Reader.gives_bind.mp h
      obtain ⟨rfl, rfl⟩ := Reader.gives_pure.mp hs
      exact ⟨p, none, p, hp, Or.inr ⟨ht, rfl, rfl⟩, gives_body.mp h⟩
  · rintro ⟨p, limit, q, hp, ⟨u, n, ht, hn, rfl⟩ | ⟨ht, rfl, rfl⟩, h⟩
    · refine ⟨(), p, hp, Reader.gives_bind.mpr ⟨true, u, gives_eatWord.mpr (Or.inl ⟨ht, rfl⟩), ?_⟩⟩
      rw [if_pos rfl]
      refine Reader.gives_bind.mpr ⟨n, q, hn, ?_⟩
      exact Reader.gives_bind.mpr ⟨some n, q, Reader.gives_pure.mpr ⟨rfl, rfl⟩, gives_body.mpr h⟩
    · refine ⟨(), p, hp, Reader.gives_bind.mpr
        ⟨false, p, gives_eatWord.mpr (Or.inr ⟨ht, rfl, rfl⟩), ?_⟩⟩
      rw [if_neg Bool.false_ne_true]
      exact Reader.gives_bind.mpr ⟨none, p, Reader.gives_pure.mpr ⟨rfl, rfl⟩, gives_body.mpr h⟩

/-- A statement read from a question has the pattern of one. -/
theorem pattern_of_read {st : Statement} (h : (read s).Gives st r) : st.pattern = .naturalQuery := by
  obtain ⟨_, _, _, -, -, _, _, _, _, _, _, -, -, -, -, rfl⟩ := gives_read.mp h
  rfl

end DataPhrase.Question
