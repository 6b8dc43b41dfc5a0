/-
# One turn

Where all calls on texts shorter than `n` are answered as the readers do, one turn on a text of
length `n` answers as they do too: every call that a turn makes is on a shorter text. A round of a
loop begins behind the mark or the word that parts it from the round before, and a reader comes
back to itself behind a parenthesis, a sign or a word. Here this is shown of tokens, names, lists,
expressions and conditions.
-/
import DataPhrase.Proofs.Finishing.Calls
import DataPhrase.Proofs.Token.Scan

namespace DataPhrase

open Text Lexeme Trial

/-! ## Answered calls -/

namespace Calls

variable {R : Calls} {n : Nat}

/-- All calls on texts shorter than `n` are answered. -/
def Settles (R : Calls) (n : Nat) : Prop :=
  ∀ {α : Type} (k : Call α), Agrees n (R.call k) k.reader

/-- Answers to a depth settle every shorter text. -/
theorem settles_below (n : Nat) : (below n).Settles n :=
  fun _ _ hs => if_pos hs

/-! ## Tokens -/

section Tokens

variable {c : Char} {r : List Char}

/-- A piece is read with the answers as it is read without them. -/
theorem piece_eq (hR : R.Settles n) (hr : r.length < n) :
    R.piece c r = attempt (Token.piece c r) := by
  unfold Calls.piece Token.piece
  split
  · cases Token.literalRest c r <;> rfl
  · split
    · have hg : R.call (.group 0) r = attempt (Token.groupRest 0 r) := hR (.group 0) r hr
      rw [hg]
      cases Token.groupRest 0 r with
      | ok x => rfl
      | error e =>
        dsimp only [attempt]
        split <;> rfl
    · split <;> rfl

/-- **A turn in a group** agrees with the reader of groups. -/
theorem agrees_group (hR : R.Settles n) (depth : Nat) :
    Agrees (n + 1) (R.groupTurn depth) (Token.groupRest depth) := by
  intro s hs
  cases s with
  | nil =>
    rw [Token.groupRest.eq_def]
    rfl
  | cons c r =>
    have hr : r.length < n := Nat.lt_of_succ_lt_succ hs
    rw [Token.groupRest.eq_def, groupTurn.eq_def]
    dsimp only
    split
    · cases Token.literalRest c r with
      | none => rfl
      | some x =>
        rw [attempt_widen]
        exact map_eq _ (hR (.group depth) x.rest (Nat.lt_of_le_of_lt x.suffix.length_le hr))
    · split
      · rw [attempt_widen]
        exact map_eq _ (hR (.group (depth + 1)) r hr)
      · split
        · cases depth with
          | zero => rfl
          | succ depth =>
            rw [attempt_widen]
            exact map_eq _ (hR (.group depth) r hr)
        · rw [attempt_widen]
          exact map_eq _ (hR (.group depth) r hr)

/-- A piece and what is read behind it. -/
theorem piece_andThen_eq {α : Type} (hR : R.Settles n) (hr : r.length < n)
    (f : List Char → List Char → α) :
    ((R.piece c r).andThen fun v => f v <$> R.call .word) =
    match Token.piece c r with
    | .error e => .stop e.cause e.rest
    | .ok x => attempt ((Token.wordRest x.rest).map (f x.value)) := by
  rw [piece_eq hR hr]
  cases Token.piece c r with
  | error e => rfl
  | ok x => exact map_eq _ (hR .word x.rest (Nat.lt_of_le_of_lt x.suffix.length_le hr))

/-- A turn in a word agrees with the reader of words. -/
theorem agrees_word (hR : R.Settles n) : Agrees (n + 1) R.wordTurn Token.wordRest := by
  intro s hs
  rw [Token.wordRest.eq_def, wordTurn.eq_def]
  split
  · rfl
  · cases s with
    | nil => rfl
    | cons c r =>
      dsimp only
      rw [piece_andThen_eq hR (Nat.lt_of_succ_lt_succ hs)]
      cases Token.piece c r with
      | error e => rfl
      | ok x => rw [attempt_widen]

theorem word_eq (hR : R.Settles n) (hr : r.length < n) :
    R.word c r = attempt (Token.word c r) := by
  unfold Calls.word Token.word
  rw [piece_andThen_eq hR hr fun v w =>
    (if Token.isQuote c && w.isEmpty then TokenKind.text else .word, v ++ w)]
  cases Token.piece c r with
  | error e => rfl
  | ok x =>
    dsimp only
    cases Token.wordRest x.rest <;> rfl

/-- A turn over tokens agrees with the scan for them. -/
theorem agrees_tokens (hR : R.Settles n) (offset : Nat) :
    Agrees (n + 1) (R.tokensTurn offset) (Call.reader (.tokens offset)) := by
  have hmap : ∀ {o : Nat} {r : List Char} (f : List Token → List Token), r.length < n →
      (Except.map f <$> R.call (.tokens o)) r = .done ((Token.scan o r).map f) [] := by
    intro o r f hr
    exact map_eq (Except.map f) (hR (.tokens o) r hr)
  intro s hs
  show R.tokensTurn offset s = .done (Token.scan offset s) []
  unfold tokensTurn
  split
  · rw [Token.scan_nil]
  · next r =>
    rw [Token.scan_arrow]
    refine hmap _ ?_
    simp only [List.length_cons] at hs
    omega
  · next c r hc =>
    have hr : r.length < n := Nat.lt_of_succ_lt_succ hs
    rw [Token.scan.eq_3 offset c r hc]
    split
    · exact hR (.tokens (offset + 1)) r hr
    · rw [word_eq hR hr]
      cases Token.word c r with
      | error e => rfl
      | ok x => exact hmap _ (Nat.lt_of_le_of_lt x.suffix.length_le hr)

end Tokens

/-! ## Names and lists -/

/-- A turn over the parts of a name agrees with the reader of them. -/
theorem agrees_dotted (hR : R.Settles n) :
    Agrees (n + 1) R.dottedTurn (Call.reader .dotted) := by
  intro s hs
  show R.dottedTurn s = attempt (.ok (dotted s))
  unfold dottedTurn
  split
  · next c r =>
    have hr : (r.dropWhile isNameChar).length < n := by
      have := (List.dropWhile_suffix (l := r) isNameChar).length_le
      simp only [List.length_cons] at hs
      omega
    rw [dotted.eq_1]
    split
    · exact map_eq _ (hR .dotted _ hr)
    · rfl
  · next hd =>
    rw [dotted.eq_2 s hd]
    rfl

/-- Names are read with the answers as without them. -/
theorem agrees_fieldName (hR : R.Settles n) : Agrees (n + 1) R.fieldName Lexeme.fieldName :=
  (agrees_lift _ identifier).bind_of_consumes consumes_identifier fun _ r hr =>
    map_eq _ (hR .dotted r hr)

theorem agrees_datasetName (hR : R.Settles n) : Agrees (n + 1) R.datasetName Lexeme.datasetName :=
  (agrees_lift _ _).bind fun _ => (agrees_lift _ _).bind fun _ =>
    (agrees_lift _ _).ite (agrees_fieldName hR)

section Lists

variable {α : Type} {p : Trial α} {q : Phrase α} {more : Trial (List α)} {f : Phrase (List α)}
  {sep : List Char → Option (List Char)} {skip : List Char → List Char}

/-- A list agrees with the loop that reads it, if every item is parted from those in front by
something. -/
theorem agrees_list (hlt : ∀ s t, sep s = some t → t.length < s.length) (hp : Agrees n p q)
    (hmore : Agrees n more f)
    (hf : ∀ s, attempt (f s) = match sep s with
      | none => .done [] (skip s)
      | some t => attempt ((q t).andThen fun a r _ => (f r).map (a :: ·))) :
    Agrees (n + 1) (listTurn sep skip p more) f := by
  intro s hs
  rw [listTurn, hf]
  cases ht : sep s with
  | none => rfl
  | some t =>
    have htn : t.length < n := Nat.lt_of_lt_of_le (hlt s t ht) (Nat.le_of_lt_succ hs)
    exact andThen_eq (hp t htn) fun a r h _ =>
      map_eq _ (hmore r (Nat.lt_of_le_of_lt h.length_le htn))

/-- What follows the comma of a list is shorter. -/
theorem length_lt_of_commaAfterGap {s t : List Char} (h : commaAfterGap s = some t) :
    t.length < s.length :=
  length_lt_of_cons_suffix (commaAfterGap_eq_some.mp h ▸ List.dropWhile_suffix isListGap)

/-! What the loops show in a round, by what parts the items. -/

section Rounds

variable {s : List Char} {f : Phrase (List α)}

/-- The attempt at a comma behind gaps, written as a case distinction. -/
theorem attempt_gap :
    attempt (match h : s.dropWhile isListGap with
      | ',' :: t => ((q t).andThen fun a r _ => (f r).map (a :: ·)).widen
          (suffix_of_cons_suffix (h ▸ List.dropWhile_suffix isListGap : ',' :: t <:+ s))
      | _ => Outcome.done [] s (List.suffix_refl s)) =
    match commaAfterGap s with
    | none => .done [] (id s)
    | some t => attempt ((q t).andThen fun a r _ => (f r).map (a :: ·)) := by
  split
  · next t ht => rw [commaAfterGap_eq_some.mpr ht, attempt_widen]
  · next hs =>
    have hn : commaAfterGap s = none :=
      Option.eq_none_iff_forall_ne_some.mpr fun t ht => hs t (commaAfterGap_eq_some.mp ht)
    rw [hn]
    rfl

/-- The attempt at a keyword, written so. -/
theorem attempt_word {k : String} :
    attempt (match nextWord s with
      | none => Outcome.done [] s (List.suffix_refl s)
      | some ⟨x, _⟩ =>
        if sameWord x.value k.toList then
          ((q x.rest).andThen fun a r _ => (f r).map (a :: ·)).widen x.suffix
        else Outcome.done [] s (List.suffix_refl s)) =
    match after? k s with
    | none => .done [] (id s)
    | some t => attempt ((q t).andThen fun a r _ => (f r).map (a :: ·)) := by
  split
  · next hn => rw [after?, wordAhead?_of_none hn]; rfl
  · next x hx hn =>
    rw [after?, wordAhead?_of_some hn]
    dsimp only
    split
    · rw [attempt_widen]
    · rfl

/-- The attempt at a separator of items, written so. -/
theorem attempt_separator (accept : List Char → List Char → Bool) :
    attempt (match h : trim s with
      | ',' :: t => ((q t).andThen fun a r _ => (f r).map (a :: ·)).widen
          (suffix_of_cons_suffix (h ▸ trim_suffix s : ',' :: t <:+ s))
      | _ =>
        match nextWord s with
        | none => Outcome.done [] (trim s) (trim_suffix s)
        | some ⟨x, _⟩ =>
          if accept x.value x.rest then
            ((q x.rest).andThen fun a r _ => (f r).map (a :: ·)).widen x.suffix
          else Outcome.done [] (trim s) (trim_suffix s)) =
    match Question.separator accept s with
    | none => .done [] (trim s)
    | some t => attempt ((q t).andThen fun a r _ => (f r).map (a :: ·)) := by
  split
  · next t ht => rw [Question.separator_of_comma ht, attempt_widen]
  · next hs =>
    rw [Question.separator_of_not_comma fun u hu => hs u hu]
    split
    · next hn => rw [wordAhead?_of_none hn]; rfl
    · next x hx hn =>
      rw [wordAhead?_of_some hn]
      dsimp only
      split
      · rw [attempt_widen]
      · rfl

end Rounds

/-- A turn over a list agrees with the reader of its further items. -/
theorem agrees_moreOf (hp : Agrees n p q) (hmore : Agrees n more (moreOf q)) :
    Agrees (n + 1) (listTurn commaAfterGap id p more) (moreOf q) := by
  refine agrees_list (fun _ _ => length_lt_of_commaAfterGap) hp hmore fun s => ?_
  rw [moreOf.eq_def]
  exact attempt_gap

/-- A list behind its first item. -/
theorem agrees_listOf (hq : q.Consumes) (hp : Agrees (n + 1) p q)
    (hmore : Agrees n more (moreOf q)) :
    Agrees (n + 1) (do
      let a ← p
      let l ← more
      pure (a :: l)) (listOf q) :=
  hp.bind_of_consumes hq fun _ => hmore.bind fun _ => agrees_pure _ _

end Lists

theorem agrees_fieldList (hR : R.Settles n) : Agrees (n + 1) R.fieldList Lexeme.fieldList :=
  agrees_listOf consumes_fieldName (agrees_fieldName hR) (hR .fields)

/-! ## Expressions -/

section Expressions

variable {c : Char} {t : List Char}

/-- Arguments begin behind a parenthesis, on a text that is shorter already. -/
theorem arguments_eq (hR : R.Settles n) : Agrees n R.arguments Expr.arguments := by
  intro s hs
  rw [Expr.arguments.eq_def]
  split
  · next t ht => rw [attempt_done, Calls.arguments, ht]; rfl
  · next t ht => rw [attempt_done, Calls.arguments, ht]; rfl
  · next h1 h2 =>
    unfold Calls.arguments
    split
    · next t ht => exact absurd ht (h1 t)
    · next t ht => exact absurd ht (h2 t)
    · exact andThen_eq (hR .expression s hs) fun e r h _ =>
        map_eq _ (hR .arguments r (Nat.lt_of_le_of_lt h.length_le hs))

/-- An operand is read with the answers as without them. -/
theorem operand_eq (hR : R.Settles n) (ht : t.length < n) :
    R.operand c t = attempt (Expr.operand c t) := by
  have hclose : ∀ {e : Expr} {r : List Char},
      (do mark ")"; pure e : Trial Expr) r = attempt ((mark ")" r).map fun _ => e) :=
    map_eq _ rfl
  rw [Expr.operand.eq_def]
  unfold Calls.operand
  split
  · rw [attempt_widen]
    exact andThen_eq (hR .expression t ht) fun e r _ _ => hclose
  · split
    · rfl
    · split
      · rfl
      · split
        · dsimp only
          cases Expr.constant? (c :: t.takeWhile isNameChar) with
          | some v => rfl
          | none =>
            dsimp only
            split
            · next u hu =>
              have hlt := length_lt_of_trim hu
              have hle := (List.dropWhile_suffix (l := t) isNameChar).length_le
              rw [attempt_widen, Calls.named, hu]
              exact andThen_eq (arguments_eq hR u (by omega)) fun es r _ _ => map_eq _ rfl
            · next d u hu =>
              split
              · next hd => rw [attempt_done, Calls.named, hu]; exact if_pos hd
              · next hd => rw [attempt_done, Calls.named, hu]; exact if_neg hd
            · next h1 h2 =>
              unfold Calls.named
              split
              · next u hu => exact absurd hu (h1 u)
              · next d u hu => exact absurd hu (h2 d u)
              · rfl
        · rfl

/-- A turn over a sign agrees with the reader of signed operands. -/
theorem agrees_signed (hR : R.Settles n) : Agrees (n + 1) R.signed Expr.signed := by
  intro s hs
  rw [Expr.signed.eq_def]
  split
  · next h => rw [attempt_stop, Calls.signed, h]
  · next c t h =>
    have ht : t.length < n := Nat.lt_of_lt_of_le (length_lt_of_trim h) (Nat.le_of_lt_succ hs)
    split
    · next hm =>
      split
      · next hu =>
        rw [attempt_stop, Calls.signed, h]
        dsimp only
        rw [if_pos hm, hu]
      · next d u hu =>
        -- digits right behind the minus are one number with it; else what follows is a call
        split
        · next hd =>
          rw [attempt_widen, Calls.signed, h]
          dsimp only
          rw [if_pos hm, hu]
          exact if_pos hd
        · next hd =>
          rw [attempt_widen, Calls.signed, h]
          dsimp only
          rw [if_pos hm, hu]
          dsimp only
          rw [if_neg hd]
          exact map_eq _ (hR .signed t ht)
    · next hm =>
      rw [attempt_widen, Calls.signed, h]
      dsimp only
      rw [if_neg hm]
      exact operand_eq hR ht

/-- A product is read with the answers as without them. -/
theorem agrees_product (hR : R.Settles n) : Agrees (n + 1) R.product Expr.product := by
  -- the reader is written with its proofs of descent; without them it is a bind
  have h : Expr.product = (Expr.signed >>= Expr.productRest : Phrase Expr) := by
    funext s
    rw [Expr.product.eq_def]
    rfl
  rw [h]
  exact (agrees_signed hR).bind_of_consumes Expr.consumes_signed fun e => hR (.factors e)

/-- A sum is read with the answers as without them. -/
theorem agrees_expression (hR : R.Settles n) : Agrees (n + 1) R.expression Expr.read := by
  have h : Expr.read = (Expr.product >>= Expr.sumRest : Phrase Expr) := by
    funext s
    rw [Expr.read.eq_def]
    rfl
  rw [h]
  exact (agrees_product hR).bind_of_consumes Expr.consumes_product fun e => hR (.summands e)

/-- Operations that group to the left agree with the loop that reads them. -/
theorem agrees_operations {sign? : List Char → Option ArithOp} {p : Trial Expr} {q : Phrase Expr}
    {more : Expr → Trial Expr} {f : Expr → Phrase Expr} (hp : Agrees n p q)
    (hmore : ∀ e, Agrees n (more e) (f e))
    (hf : ∀ left s, attempt (f left s) = match trim s with
      | [] => .done left []
      | c :: t =>
        match sign? (c :: t) with
        | none => .done left (c :: t)
        | some op => attempt ((q t).andThen fun right r _ => f (.binary op left right) r))
    (left : Expr) : Agrees (n + 1) (operationTurn sign? p more left) (f left) := by
  intro s hs
  rw [operationTurn, hf]
  cases hc : trim s with
  | nil => rfl
  | cons c t =>
    have ht : t.length < n := Nat.lt_of_lt_of_le (length_lt_of_trim hc) (Nat.le_of_lt_succ hs)
    dsimp only
    cases sign? (c :: t) with
    | none => rfl
    | some op =>
      exact andThen_eq (hp t ht) fun right r h _ =>
        hmore _ r (Nat.lt_of_le_of_lt h.length_le ht)

/-- The attempt at a sign between operands, written as a case distinction. -/
theorem attempt_sign {sign? : List Char → Option ArithOp} {left : Expr} {s : List Char}
    {o : ArithOp → Phrase Expr} :
    attempt (match h : trim s with
      | [] => Outcome.done left [] List.nil_suffix
      | c :: t =>
        match sign? (c :: t) with
        | none => Outcome.done left (c :: t) (h ▸ trim_suffix s)
        | some op => (o op t).widen (suffix_of_cons_suffix (h ▸ trim_suffix s : c :: t <:+ s))) =
    match trim s with
    | [] => .done left []
    | c :: t =>
      match sign? (c :: t) with
      | none => .done left (c :: t)
      | some op => attempt (o op t) := by
  split
  · next h => rw [h]; rfl
  · next c t h =>
    split
    · next ho => rw [attempt_done, h]; dsimp only; rw [ho]
    · next op ho => rw [attempt_widen, h]; dsimp only; rw [ho]

/-- A turn over summands agrees with the reader of the rest of a sum. -/
theorem agrees_summands (hR : R.Settles n) (left : Expr) :
    Agrees (n + 1) (R.turn (.summands left)) (Expr.sumRest left) := by
  refine agrees_operations (f := Expr.sumRest) ((agrees_product hR).mono (Nat.le_succ n))
    (fun e => hR (.summands e)) (fun left s => ?_) left
  rw [Expr.sumRest.eq_def]
  exact attempt_sign

/-- A turn over factors agrees with the reader of the rest of a product. -/
theorem agrees_factors (hR : R.Settles n) (left : Expr) :
    Agrees (n + 1) (R.turn (.factors left)) (Expr.productRest left) := by
  refine agrees_operations (f := Expr.productRest) ((agrees_signed hR).mono (Nat.le_succ n))
    (fun e => hR (.factors e)) (fun left s => ?_) left
  rw [Expr.productRest.eq_def]
  exact attempt_sign

/-- A turn over arguments agrees with the reader of further arguments. -/
theorem agrees_moreArguments (hR : R.Settles n) :
    Agrees (n + 1) (R.turn .arguments) Expr.argumentsRest := by
  refine agrees_list (q := Expr.read) (fun _ _ => length_lt_of_commaAfterGap)
    ((agrees_expression hR).mono (Nat.le_succ n)) (hR .arguments) fun s => ?_
  rw [Expr.argumentsRest.eq_def]
  exact attempt_gap

end Expressions

/-! ## Conditions -/

section Conditions

/-- A comparison or a call is read with the answers as without them. -/
theorem simple_eq (hR : R.Settles n) : Agrees (n + 1) R.simple Condition.simple := by
  intro s hs
  have hread := agrees_expression hR s hs
  unfold Calls.simple Condition.simple
  rw [hread]
  cases h : Expr.read s with
  | error e => rfl
  | ok x =>
    obtain ⟨left, r, hr⟩ := x
    have hrn : r.length < n + 1 := Nat.lt_of_le_of_lt hr.length_le hs
    rw [attempt_ok]
    dsimp only [Attempt.andThen]
    cases ho : Condition.sign? (trim r) with
    | some x =>
      obtain ⟨op, k⟩ := x
      dsimp only
      have hk := ((List.drop_suffix k (trim r)).trans (trim_suffix r)).length_le
      rw [attempt_widen]
      exact map_eq _ (agrees_expression hR _ (Nat.lt_of_le_of_lt hk hrn))
    | none =>
      dsimp only
      cases left with
      | call name args => rfl
      | _ =>
        dsimp only
        split <;> rfl

/-- Without `not` and without a group a negation is a comparison or a call. -/
theorem negation_eq_simple {s : List Char} (hw : after? "not" s = none)
    (hg : Condition.groupAhead (trim s) = false) : R.negation s = R.simple s := by
  unfold Calls.negation
  rw [hw]
  dsimp only
  split
  · next t ht =>
    rw [ht] at hg
    exact if_neg (by rw [hg]; exact Bool.false_ne_true)
  · rfl

/-- A turn over a negation agrees with the reader of negations. -/
theorem agrees_negation (hR : R.Settles n) : Agrees (n + 1) R.negation Condition.negation := by
  intro s hs
  rw [Condition.negation.eq_def]
  -- the reader looks for a word first, the trial for `not`: a group does not begin with a word
  split
  · next x hx hn =>
    have hw := wordAhead?_of_some hn
    split
    · next hk =>
      rw [attempt_widen, Calls.negation, after?_eq_some.mpr ⟨x.value, hw, hk⟩]
      exact map_eq _ (hR .negation x.rest (Nat.lt_of_lt_of_le hx (Nat.le_of_lt_succ hs)))
    · next hk =>
      have ha : after? "not" s = none := by rw [after?, hw]; exact if_neg hk
      rw [negation_eq_simple ha (Condition.groupAhead_of_wordAhead? hw)]
      exact simple_eq hR s hs
  · next hn =>
    have ha : after? "not" s = none := by rw [after?, wordAhead?_of_none hn]
    split
    · next ht =>
      rw [negation_eq_simple ha (by rw [ht]; rfl)]
      exact simple_eq hR s hs
    · next c t ht =>
      split
      · next hg =>
        obtain ⟨u, hu⟩ := Condition.exists_of_groupAhead hg
        cases hu
        have htn := Nat.lt_of_lt_of_le (length_lt_of_trim ht) (Nat.le_of_lt_succ hs)
        rw [attempt_widen, Calls.negation, ha]
        dsimp only
        rw [ht]
        exact (if_pos hg).trans
          (andThen_eq (hR .condition t htn) fun c r _ _ => map_eq _ rfl)
      · next hg =>
        rw [negation_eq_simple ha (by rw [ht]; simpa using hg)]
        exact simple_eq hR s hs

theorem agrees_conjunction (hR : R.Settles n) :
    Agrees (n + 1) R.conjunction Condition.conjunction := by
  intro s hs
  rw [Condition.conjunction.eq_def]
  exact andThen_eq (agrees_negation hR s hs) fun c r _ h => map_eq _
    (hR .conjuncts r (Nat.lt_of_lt_of_le (Condition.consumes_negation s c r h)
      (Nat.le_of_lt_succ hs)))

/-- A condition is read with the answers as without them. -/
theorem agrees_condition (hR : R.Settles n) : Agrees (n + 1) R.condition Condition.read := by
  intro s hs
  rw [Condition.read.eq_def]
  exact andThen_eq (agrees_conjunction hR s hs) fun c r _ h => map_eq _
    (hR .alternatives r (Nat.lt_of_lt_of_le (Condition.consumes_conjunction s c r h)
      (Nat.le_of_lt_succ hs)))

/-- A turn over conjuncts agrees with the reader of further conjuncts. -/
theorem agrees_conjuncts (hR : R.Settles n) :
    Agrees (n + 1) (R.turn .conjuncts) Condition.conjunctionRest := by
  refine agrees_list (q := Condition.negation) (fun _ _ => length_lt_of_after?)
    ((agrees_negation hR).mono (Nat.le_succ n)) (hR .conjuncts) fun s => ?_
  rw [Condition.conjunctionRest.eq_def]
  exact attempt_word

/-- A turn over alternatives agrees with the reader of further alternatives. -/
theorem agrees_alternatives (hR : R.Settles n) :
    Agrees (n + 1) (R.turn .alternatives) Condition.alternatives := by
  refine agrees_list (q := Condition.conjunction) (fun _ _ => length_lt_of_after?)
    ((agrees_conjunction hR).mono (Nat.le_succ n)) (hR .alternatives) fun s => ?_
  rw [Condition.alternatives.eq_def]
  exact attempt_word

end Conditions

end Calls

end DataPhrase
