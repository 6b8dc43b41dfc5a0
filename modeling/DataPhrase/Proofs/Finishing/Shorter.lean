/-
# Readers that get on

A reader that takes something off every text it reads leaves a shorter one behind. It is enough
that one of the readers it is put together from does so, because none of them gives text back: what
is left is an ending in any case.
-/
import DataPhrase.Proofs.Statement.Question
import DataPhrase.Statement.Pipeline

namespace DataPhrase

open Text Lexeme

/-! ## Shorter endings -/

section Readers

variable {ε α β : Type} {s : List Char} {p : Reader ε α}

/-- What is left of the text is an ending, and a shorter one after a success. -/
def Outcome.Shortens (o : Outcome ε s α) : Prop :=
  match o with
  | .ok x => x.rest <:+ s ∧ x.rest.length < s.length
  | .error e => e.rest <:+ s

/-- The reader takes something off every text it reads. -/
def Reader.Consumes (p : Reader ε α) : Prop :=
  ∀ s a r, (p s).Gives a r → r.length < s.length

namespace Reader.Consumes

/-- A reader that consumes leaves less than there was. -/
theorem shortens (hp : p.Consumes) (s : List Char) : (p s).Shortens := by
  unfold Outcome.Shortens
  cases h : p s with
  | error e => exact e.suffix
  | ok x => exact ⟨x.suffix, hp s x.value x.rest ⟨x.suffix, h⟩⟩

/-- What follows gives nothing back. -/
theorem bind (hp : p.Consumes) (f : α → Reader ε β) : (p >>= f).Consumes := by
  intro s b r h
  obtain ⟨a, q, ha, hb⟩ := Reader.gives_bind.mp h
  exact Nat.lt_of_le_of_lt hb.suffix.length_le (hp s a q ha)

/-- What stands in front gives nothing back. -/
theorem after {f : α → Reader ε β} (hf : ∀ a, (f a).Consumes) : (p >>= f).Consumes := by
  intro s b r h
  obtain ⟨a, q, ha, hb⟩ := Reader.gives_bind.mp h
  exact Nat.lt_of_lt_of_le (hf a q b r hb) ha.suffix.length_le

/-- Settling the value of a reader does not give back what it took. -/
theorem refine (hp : p.Consumes) (f : α → Except ε β) : (p.refine f).Consumes := by
  intro s b r h
  obtain ⟨a, ha, -⟩ := Reader.gives_refine.mp h
  exact hp s a r ha

theorem withText (hp : p.Consumes) : p.withText.Consumes := by
  intro s x r h
  exact hp s x.1 r (Reader.gives_withText.mp h).1

end Reader.Consumes

end Readers

/-! ## Lexemes -/

namespace Lexeme

/-- An identifier takes at least its first character. -/
theorem consumes_identifier : Reader.Consumes identifier := by
  intro s n r h
  obtain ⟨w, hw, -⟩ := gives_identifier.mp h
  exact length_lt_of_wordAhead? hw

theorem consumes_fieldName : Reader.Consumes fieldName :=
  consumes_identifier.bind _

/-- A keyword takes its characters. -/
theorem consumes_keyword (k : String) : (keyword k).Consumes := by
  intro s u r h
  exact length_lt_of_after? (gives_keyword.mp h)

theorem consumes_datasetName : Reader.Consumes datasetName := by
  intro s n r h
  exact consumes_fieldName s n r (gives_datasetName.mp h)

/-- A list takes at least its first item. -/
theorem consumes_listOf {α : Type} {p : Phrase α} (hp : p.Consumes) : (listOf p).Consumes :=
  hp.bind _

end Lexeme

/-! ## Expressions -/

namespace Expr

variable {c : Char} {t r : List Char} {e : Expr}

/-- A number that begins with a digit takes that digit. -/
theorem suffix_of_decimal {x : Number} (hc : isDigit c = true)
    (h : (decimal (c :: t)).Gives x r) : r <:+ t := by
  obtain ⟨_, h, -⟩ := Reader.gives_refine.mp h
  obtain ⟨-, rfl⟩ := Reader.gives_takeWhile.mp h
  have hn : isNumberChar c = true := by rw [isNumberChar, hc, Bool.true_or]
  rw [List.dropWhile_cons_of_pos hn]
  exact List.dropWhile_suffix isNumberChar

/-- An operand takes at least the character it starts with. -/
theorem suffix_of_operand (h : (operand c t).Gives e r) : r <:+ t := by
  by_cases hp : c = '('
  · subst hp
    obtain ⟨q, hq, hr⟩ := gives_operand_group.mp h
    exact (suffix_of_cons_suffix (hr ▸ trim_suffix q)).trans hq.suffix
  by_cases hq : Token.isQuote c = true
  · obtain ⟨x, -, -, rfl⟩ := (gives_operand_text hq).mp h
    exact x.suffix
  by_cases hd : isDigit c = true
  · obtain ⟨x, hx, -⟩ := (gives_operand_number hd).mp h
    exact suffix_of_decimal hd hx
  by_cases hc : isNameStart c = true
  · have hname := List.dropWhile_suffix (l := t) isNameChar
    have hrest := (trim_suffix (t.dropWhile isNameChar)).trans hname
    cases hv : constant? (c :: t.takeWhile isNameChar) with
    | some v =>
      obtain ⟨-, rfl⟩ := (gives_operand_constant hc hv).mp h
      exact hname
    | none =>
      by_cases he : endsName (trim (t.dropWhile isNameChar)) = true
      · obtain ⟨-, rfl⟩ := (gives_operand_plain hc hv he).mp h
        exact hrest
      · unfold endsName at he
        split at he
        · next u hu =>
          obtain ⟨_, q, hes, hr, -⟩ := (gives_operand_call hc hv hu).mp h
          rw [hu] at hrest
          exact ((suffix_of_cons_suffix (hr ▸ trim_suffix q)).trans hes.suffix).trans
            (suffix_of_cons_suffix hrest)
        · next d u hu =>
          rw [Bool.not_eq_true, Bool.not_eq_false'] at he
          obtain ⟨-, rfl⟩ := (gives_operand_qualified hc hv hu he).mp h
          rw [hu] at hrest
          exact (List.dropWhile_suffix isNameChar).trans
            (suffix_of_cons_suffix (suffix_of_cons_suffix hrest))
        · exact absurd rfl he
  · rw [operand.eq_def, if_neg hp, if_neg hq, if_neg hd, if_neg hc] at h
    exact absurd h Outcome.not_gives_fail

/-- A signed operand takes at least one character. -/
theorem consumes_signed : Reader.Consumes (signed : Phrase Expr) := by
  intro s e r h
  obtain ⟨c, t, hs, h⟩ := gives_signed.mp h
  have hr : r <:+ t := by
    rcases h with ⟨-, d, u, hu, ⟨hd, x, hx, -⟩ | ⟨-, x, hx, -⟩⟩ | ⟨-, hx⟩
    · exact (suffix_of_decimal hd hx).trans (suffix_of_cons_suffix (hu ▸ trim_suffix t))
    · exact hx.suffix
    · exact suffix_of_operand hx
  exact Nat.lt_of_le_of_lt hr.length_le (length_lt_of_trim hs)

theorem consumes_product : Reader.Consumes (product : Phrase Expr) := by
  intro s e r h
  obtain ⟨l, q, hl, he⟩ := gives_product.mp h
  exact Nat.lt_of_le_of_lt he.suffix.length_le (consumes_signed s l q hl)

/-- **Expressions** take at least one character. -/
theorem consumes_read : Reader.Consumes (read : Phrase Expr) := by
  intro s e r h
  obtain ⟨l, q, hl, he⟩ := gives_read.mp h
  exact Nat.lt_of_le_of_lt he.suffix.length_le (consumes_product s l q hl)

end Expr

/-! ## Conditions -/

namespace Condition

theorem consumes_simple : Reader.Consumes (simple : Phrase Condition) := by
  intro s c r h
  rcases gives_simple.mp h with ⟨l, q, op, n, e, hl, -, he, -⟩ | ⟨n, es, q, hq, -, -, rfl⟩
  · have hr := (he.suffix.trans (List.drop_suffix n _)).trans (trim_suffix q)
    exact Nat.lt_of_le_of_lt hr.length_le (Expr.consumes_read s l q hl)
  · exact Nat.lt_of_le_of_lt (trim_suffix q).length_le (Expr.consumes_read s _ q hq)

/-- A negation takes at least one character. -/
theorem consumes_negation : Reader.Consumes (negation : Phrase Condition) := by
  intro s c r h
  rcases gives_negation.mp h with ⟨t, a, hw, ha, -⟩ | ⟨-, t, q, ht, -, hq, hr⟩ | ⟨-, -, hc⟩
  · exact Nat.lt_of_le_of_lt ha.suffix.length_le (length_lt_of_after? hw)
  · have hsuf := (suffix_of_cons_suffix (hr ▸ trim_suffix q)).trans hq.suffix
    exact Nat.lt_of_le_of_lt hsuf.length_le (length_lt_of_trim ht)
  · exact consumes_simple s c r hc

theorem consumes_conjunction : Reader.Consumes (conjunction : Phrase Condition) := by
  intro s c r h
  obtain ⟨a, q, cs, ha, hcs, -⟩ := gives_conjunction.mp h
  exact Nat.lt_of_le_of_lt hcs.suffix.length_le (consumes_negation s a q ha)

/-- **Conditions** take at least one character. -/
theorem consumes_read : Reader.Consumes (read : Phrase Condition) := by
  intro s c r h
  obtain ⟨a, q, cs, ha, hcs, -⟩ := gives_read.mp h
  exact Nat.lt_of_le_of_lt hcs.suffix.length_le (consumes_conjunction s a q ha)

end Condition

/-! ## Items, lists and periods -/

theorem consumes_orderItem : Reader.Consumes OrderItem.read :=
  consumes_fieldName.bind _

/-- Items take at least one character. -/
theorem Item.consumes_read : Reader.Consumes Item.read :=
  Reader.Consumes.after fun _ => (Expr.consumes_read.refine _).bind _

/-- Operations take at least one character. -/
theorem Operation.consumes_read : Reader.Consumes Operation.read :=
  Item.consumes_read.bind _

theorem Pipeline.consumes_operation (accept : Item → Bool) (what : Expected) :
    (operation accept what).Consumes :=
  Reader.Consumes.after fun _ => (Item.consumes_read.refine _).bind _

theorem Period.consumes_readAnchor : Reader.Consumes readAnchor := by
  intro s a r h
  unfold readAnchor at h
  split at h
  · exact absurd h Outcome.not_gives_stop
  · next x _ =>
    split at h
    · obtain ⟨-, rfl⟩ := Outcome.gives_ok.mp h
      exact x.2
    · exact absurd h Outcome.not_gives_stop

/-- Periods take at least their anchor. -/
theorem Period.consumes_read : Reader.Consumes Period.read :=
  Reader.Consumes.after fun _ => (consumes_readAnchor.bind _).withText.bind _

/-! ## Stages and questions -/

/-- A stage takes at least its name. -/
theorem Pipeline.consumes_stage (d : Draft) : (stage d).Consumes :=
  Reader.Consumes.after fun _ => (((consumes_identifier.refine _).bind _).refine _).bind _

/-- A spoken aggregate begins with a word. -/
theorem Question.wordAhead?_of_spokenAhead? {s r w : List Char} {f : AggregateFn}
    (h : spokenAhead? s = some ((w, f), r)) : wordAhead? s = some (w, r) := by
  unfold spokenAhead? at h
  split at h
  · cases h
  · next hw =>
    split at h
    · cases h
    · split at h
      · cases h
      · cases h
        exact hw

theorem Question.consumes_readVerb : Reader.Consumes readVerb := by
  intro s u r h
  obtain ⟨w, hw, -⟩ := gives_readVerb.mp h
  exact length_lt_of_wordAhead? hw

/-- What a question asks for takes at least one character. -/
theorem Question.consumes_asked : Reader.Consumes (asked : Phrase Asked) := by
  intro s a r h
  rcases asked_cases h with ⟨w, f, q, -, hq, h⟩ | ⟨-, item, n, q, hi, hn, -⟩
  · exact Nat.lt_of_le_of_lt h.suffix.length_le
      (length_lt_of_wordAhead? (wordAhead?_of_spokenAhead? hq))
  · exact Nat.lt_of_le_of_lt hn.suffix.length_le (Item.consumes_read s item q hi)

end DataPhrase
