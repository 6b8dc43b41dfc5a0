/-
# Printing conditions

A condition is printed with parentheses around alternatives inside another connective and around
every connective inside a negation. What is printed is read to its end as the condition that was
printed, as long as the scan that looks into each parenthesis is not led astray by an escaped quote:
it takes the quote for the end of its text (`Condition.read_print_of_suits`).
-/
import DataPhrase.Proofs.Grammar.Names
import DataPhrase.Proofs.Printing.Scan

namespace DataPhrase

open Text Lexeme

/-! ## The printer -/

/-- The sign of a comparison in a statement. -/
def CompareOp.sign : CompareOp → String
  | .eq => "="
  | .ne => "!="
  | .lt => "<"
  | .le => "<="
  | .gt => ">"
  | .ge => ">="

/-- The word of a connective. -/
def LogicalOp.word : LogicalOp → String
  | .and => "and"
  | .or => "or"

namespace Condition

/-- The connective that a condition is made with, if it is. -/
def connective? : Condition → Option LogicalOp
  | .logical op _ => some op
  | _ => none

mutual

/-- The text of a condition. -/
def print (y : Layout) : Condition → List Char
  | .comparison l op r => l.print y ++ (y.gap ++ op.sign.toList ++ y.gap ++ r.print y)
  | .logical op cs => printAll y op cs
  | .not c => "not".toList ++ ' ' :: (y.gap ++ parensIf c.connective?.isSome (c.print y))
  | .call n args => (Expr.call n args).print y

/-- The text of conditions with a connective between them. -/
def printAll (y : Layout) (op : LogicalOp) : List Condition → List Char
  | [] => []
  | c :: cs => parensIf (c.connective? = some .or) (c.print y) ++ printMore y op cs

/-- The text of the conditions behind the first. -/
def printMore (y : Layout) (op : LogicalOp) : List Condition → List Char
  | [] => []
  | c :: cs => ' ' :: (y.gap ++ (op.word.toList ++ ' ' :: (y.gap ++
      (parensIf (c.connective? = some .or) (c.print y) ++ printMore y op cs))))

end

/-- The text of a condition among those of a connective. -/
def part (y : Layout) (c : Condition) : List Char :=
  parensIf (c.connective? = some .or) (c.print y)

/-- A condition in normal form: a connective has two conditions at least, and no conjunction is
among those of a conjunction. -/
inductive IsPrintable : Condition → Prop where
  | comparison {l r : Expr} {op : CompareOp} (hl : l.IsOperand) (hr : r.IsOperand) :
      IsPrintable (.comparison l op r)
  | call {n : String} {es : List Expr} (h : (Expr.call n es).IsOperand) : IsPrintable (.call n es)
  | not {c : Condition} (hc : IsPrintable c) : IsPrintable (.not c)
  | logical {op : LogicalOp} {c d : Condition} {cs : List Condition}
      (h : ∀ a ∈ c :: d :: cs, IsPrintable a)
      (hand : op = .and → ∀ a ∈ c :: d :: cs, a.connective? ≠ some .and) :
      IsPrintable (.logical op (c :: d :: cs))

/-! ## What the scan has to go over -/

/-- The texts in a condition. -/
def texts (c : Condition) : List String :=
  c.exprs.flatMap Expr.texts

mutual

/-- The texts in front of the first sign or connective of a condition, parentheses left aside: a
whole condition in parentheses may stand there. -/
def openingTexts : Condition → List String
  | .comparison l _ _ => l.texts
  | .logical _ cs => openingTextsAll cs
  | .not _ => []
  | .call _ args => args.flatMap Expr.texts

/-- The same for conditions with a connective between them. -/
def openingTextsAll : List Condition → List String
  | [] => []
  | c :: _ => if c.connective? = some .or then c.texts else c.openingTexts

end

mutual

/-- The texts in a condition that stand behind a parenthesis and in front of what tells the scan
what the parenthesis holds. -/
def scannedTexts : Condition → List String
  | .comparison l _ _ => l.groupTexts
  | .logical _ cs => scannedTextsAll cs
  | .not c => (if c.connective?.isSome then c.openingTexts else []) ++ c.scannedTexts
  | .call _ _ => []

/-- The same for conditions with a connective between them. -/
def scannedTextsAll : List Condition → List String
  | [] => []
  | c :: cs =>
    (if c.connective? = some .or then c.openingTexts else []) ++ c.scannedTexts ++
      scannedTextsAll cs

end

/-- The texts that a scan meets, condition by condition. -/
theorem scannedTextsAll_eq (cs : List Condition) : scannedTextsAll cs = cs.flatMap fun c =>
    (if c.connective? = some .or then c.openingTexts else []) ++ c.scannedTexts := by
  induction cs with
  | nil => rfl
  | cons c cs ih => rw [scannedTextsAll, ih, List.flatMap_cons]

variable {y : Layout} {c : Condition} {cs : List Condition} {op : LogicalOp} {d : Nat}
  {s t p : List Char}

/-! ## Scans of conditions -/

/-- Inside a second parenthesis the scan finds nothing at a sign. -/
theorem isMark_sign (op : CompareOp) (hd : 2 ≤ d) : ∀ c ∈ op.sign.toList, IsMark d c := by
  have hall : op.sign.toList.all (fun c => isPassed c && !isNameChar c) = true := by
    cases op <;> decide
  intro c hc
  have hmark := List.all_eq_true.mp hall c hc
  rw [Bool.and_eq_true, Bool.not_eq_true'] at hmark
  exact ⟨hmark.1, hmark.2, by omega⟩

/-- Blanks are marks for a scan. -/
theorem isMark_blank (y : Layout) : ∀ c ∈ ' ' :: y.gap, IsMark d c :=
  List.forall_mem_cons.mpr ⟨isMark_of_isBlank (by decide), isMark_gap y⟩

/-- A connective is made of characters of names. -/
theorem isNameChar_word (op : LogicalOp) : ∀ c ∈ op.word.toList, isNameChar c = true := by
  refine List.all_eq_true.mp ?_
  cases op <;> decide

/-- A word behind which there is a blank is skipped in an inner group. -/
theorem Skips.word_blank {w : String} (hw : ∀ c ∈ w.toList, isNameChar c = true) (hd : 2 ≤ d)
    (hp : Skips d p) (y : Layout) : Skips d (w.toList ++ ' ' :: (y.gap ++ p)) :=
  (Skips.word hw (by omega)).join (isMark_blank y) (List.cons_ne_nil _ _) hp

/-- Further conditions are skipped in an inner group. -/
theorem skips_printMore (hd : 2 ≤ d) (hp : Skips d p)
    (hcs : ∀ c ∈ cs, Skips d (parensIf (c.connective? = some .or) (c.print y))) :
    Skips d (p ++ printMore y op cs) := by
  induction cs generalizing p with
  | nil =>
    rw [printMore, List.append_nil]
    exact hp
  | cons c cs ih =>
    rw [List.forall_mem_cons] at hcs
    have hword := Skips.word_blank (isNameChar_word op) hd (ih hcs.1 hcs.2) y
    exact hp.join (isMark_blank y) (List.cons_ne_nil _ _) hword

/-- Inside a second parenthesis the scan goes over a printed condition. -/
theorem IsPrintable.skips (hc : c.IsPrintable) (hs : y.Suits c.texts) (hd : 2 ≤ d) :
    Skips d (c.print y) := by
  induction hc generalizing d with
  | @comparison l r op hl hr =>
    rw [texts, exprs, List.flatMap_cons, List.flatMap_singleton, Layout.suits_append] at hs
    have hsign : ∀ c ∈ y.gap ++ op.sign.toList ++ y.gap, IsMark d c := by
      simp only [List.forall_mem_append]
      exact ⟨⟨isMark_gap y, isMark_sign op hd⟩, isMark_gap y⟩
    exact (hl.skips hs.1 (by omega)).join hsign (by cases op <;> simp [CompareOp.sign])
      (hr.skips hs.2 (by omega))
  | call h =>
    refine h.skips ?_ (by omega)
    rw [Expr.texts, Expr.textsAll_eq]
    exact hs
  | not _ ih =>
    exact Skips.word_blank (List.all_eq_true.mp (by decide)) hd
      ((ih hs hd).parensIf (by omega) (ih hs (by omega))) y
  | @logical op c e cs h _ ih =>
    rw [texts, exprs, exprsAll_eq, List.flatMap_assoc] at hs
    have hall : ∀ a ∈ c :: e :: cs, Skips d (parensIf (a.connective? = some .or) (a.print y)) :=
      fun a ha =>
        (ih a ha (hs.of_mem ha) hd).parensIf (by omega) (ih a ha (hs.of_mem ha) (by omega))
    rw [List.forall_mem_cons] at hall
    exact skips_printMore hd hall.1 hall.2

/-! ### What the scan finds -/

/-- A gap decides nothing about a group. -/
theorem showsCondition_gap {w : List Char} (hw : Undecided d w) (y : Layout) (t : List Char) :
    ∃ v, showsCondition d none w (y.gap ++ t) = showsCondition d none v t := by
  by_cases hne : y.gap = []
  · exact ⟨w, by rw [hne, List.nil_append]⟩
  · exact ⟨[], showsCondition_marks hw (isMark_gap y) hne⟩

/-- A connective shows that a group holds a condition. -/
theorem showsCondition_printMore {w : List Char} (hw : Undecided 1 w) (c : Condition)
    (t : List Char) : showsCondition 1 none w (printMore y op (c :: cs) ++ t) = true := by
  rw [printMore, List.cons_append, List.append_assoc, List.append_assoc, List.cons_append]
  refine (showsCondition_marks hw (isMark_blank y) (List.cons_ne_nil ' ' y.gap)).trans ?_
  exact showsCondition_connective (isNameChar_word op) (by cases op <;> decide) (by decide) _

/-- The scan finds a condition in what is printed, or there is nothing to be found in it. -/
theorem IsPrintable.shows_or_skips (hc : c.IsPrintable) (hs : y.Suits c.openingTexts) :
    (∀ t, showsCondition 1 none [] (c.print y ++ t) = true) ∨
      Skips 1 (c.print y) ∧ c.connective? = none := by
  induction hc with
  | @comparison l r op hl hr =>
    left
    intro t
    obtain ⟨w, hw, h⟩ := hl.skips hs (Nat.le_refl 1)
      (y.gap ++ (op.sign.toList ++ (y.gap ++ (r.print y ++ t))))
    obtain ⟨v, hv⟩ := showsCondition_gap hw y (op.sign.toList ++ (y.gap ++ (r.print y ++ t)))
    have hsign : ∃ x, sign? op.sign.toList = some x := by cases op <;> exact ⟨_, rfl⟩
    obtain ⟨x, hx⟩ := hsign
    simp only [print, List.append_assoc]
    rw [h, hv, showsCondition_sign hx]
  | call h =>
    refine Or.inr ⟨h.skips ?_ (Nat.le_refl 1), rfl⟩
    rw [Expr.texts, Expr.textsAll_eq]
    exact hs
  | not _ _ =>
    left
    intro t
    rw [print, List.append_assoc]
    exact showsCondition_connective (List.all_eq_true.mp (by decide)) (by decide) (by decide) _
  | @logical op c e cs h _ ih =>
    left
    intro t
    have hc := h c List.mem_cons_self
    rw [openingTexts, openingTextsAll] at hs
    rw [print, printAll, List.append_assoc]
    -- a whole alternative in parentheses, or the first condition itself
    by_cases hor : c.connective? = some .or
    · rw [if_pos hor] at hs
      obtain ⟨w, hw, hskip⟩ := Skips.nil.group (Nat.le_refl 1) (hc.skips hs (Nat.le_refl 2))
        (printMore y op (e :: cs) ++ t)
      rw [parensIf, if_pos (decide_eq_true hor)]
      exact hskip.trans (showsCondition_printMore hw e t)
    · rw [if_neg hor] at hs
      rw [parensIf, if_neg (by simpa using hor)]
      rcases ih c List.mem_cons_self hs with hshow | ⟨hskip, -⟩
      · exact hshow _
      · obtain ⟨w, hw, hskip⟩ := hskip (printMore y op (e :: cs) ++ t)
        rw [hskip, showsCondition_printMore hw]

/-- **A printed connective in parentheses is taken for a condition.** -/
theorem IsPrintable.shows (hc : c.IsPrintable) (hop : c.connective?.isSome = true)
    (hs : y.Suits c.openingTexts) (t : List Char) :
    showsCondition 1 none [] (c.print y ++ t) = true := by
  rcases hc.shows_or_skips hs with h | ⟨-, h⟩
  · exact h t
  · rw [h] at hop
    cases hop

/-! ## How a text is read wherever it stands -/

/-- The text goes on with no operand, operation or comparison in front of it. -/
structure Closed (t : List Char) : Prop where
  ends : Ends t
  product : Expr.productSign? (trim t) = none
  sum : Expr.sumSign? (trim t) = none
  sign : sign? (trim t) = none

/-- Nothing goes on behind the end. -/
theorem closed_nil : Closed [] :=
  ⟨ends_nil, rfl, rfl, rfl⟩

/-- A closing parenthesis ends a condition. -/
theorem closed_paren : Closed (')' :: t) :=
  ⟨ends_cons (by decide), rfl, rfl, rfl⟩

/-- A connective behind blanks, and what is behind it. -/
theorem trim_word (y : Layout) (op : LogicalOp) (t : List Char) :
    trim (' ' :: (y.gap ++ (op.word.toList ++ t))) = op.word.toList ++ t := by
  rw [trim_cons_of_isBlank (by decide), trim_gap]
  cases op <;> exact trim_cons_of_not_isBlank (by decide)

/-- A connective ends the condition in front of it. -/
theorem closed_word (y : Layout) (op : LogicalOp) (t : List Char) :
    Closed (' ' :: (y.gap ++ (op.word.toList ++ t))) := by
  have hname : Expr.endsName (trim (y.gap ++ (op.word.toList ++ t))) = true := by
    have := trim_word y op t
    rw [trim_cons_of_isBlank (by decide)] at this
    rw [this]
    cases op <;> rfl
  constructor
  · exact ends_of_blank (by decide) hname
  all_goals
    rw [trim_word]
    cases op <;> rfl

/-- Of the two connectives only the one that is written is found. -/
theorem after?_word (y : Layout) (op k : LogicalOp) (t : List Char) :
    after? k.word (' ' :: (y.gap ++ (op.word.toList ++ ' ' :: t))) =
      if k = op then some (' ' :: t) else none := by
  have hidentifier : isIdentifier op.word = true := by cases op <;> decide
  rw [← after?_trim, trim_word, after?,
    Expr.wordAhead?_name hidentifier (by rintro _ ⟨⟩; decide)]
  cases op <;> cases k <;> rfl

/-- In front of everything that closes a condition the text is read as the condition: as a part of a
conjunction, as a conjunction and as a whole, as far as its connective allows. -/
structure Spells (c : Condition) (p : List Char) : Prop where
  head : ∃ d s, p = d :: s ∧ isBlank d = false
  negation : c.connective? = none → ∀ {t}, Closed t → Derives (.negation c) (p ++ t) (trim t)
  conjunction : c.connective? ≠ some .or → ∀ {t}, Closed t → after? "and" t = none →
    Derives (.conjunction c) (p ++ t) (trim t)
  disjunction : ∀ {t}, Closed t → after? "and" t = none → after? "or" t = none →
    Derives (.disjunction c) (p ++ t) (trim t)

/-- Only a conjunction has more than one conjunct. -/
theorem conjuncts_of_connective? (hc : c.connective? ≠ some .and) : c.conjuncts = [c] := by
  cases c with
  | logical op cs =>
    cases op with
    | and => exact absurd rfl hc
    | or => rfl
  | _ => rfl

/-- A conjunction of conditions none of which is one. -/
theorem and_of_connective? (hcs : ∀ c ∈ cs, c.connective? ≠ some .and) (hlength : 2 ≤ cs.length) :
    and cs = .logical .and cs := by
  have hflat : cs.flatMap conjuncts = cs := by
    conv_rhs => rw [← List.flatMap_singleton' cs]
    rw [List.flatMap, List.flatMap,
      List.map_congr_left fun c hc => conjuncts_of_connective? (hcs c hc)]
  rw [and, hflat]
  split
  · simp at hlength
  · rfl

/-- A part of a conjunction is a conjunction of one. -/
theorem Derives.conjunction_of_negation (hc : c.connective? ≠ some .and)
    (h : Derives (.negation c) (p ++ t) (trim t)) (hand : after? "and" t = none) :
    Derives (.conjunction c) (p ++ t) (trim t) := by
  have hone : and [c] = c := by
    rw [and, List.flatMap_singleton, conjuncts_of_connective? hc]
  have hd := Derives.conjunction h (.conjunctsEnd (by rwa [after?_trim]))
  rwa [hone] at hd

/-- A conjunction that no alternative follows is a disjunction. -/
theorem Derives.disjunction_of_conjunction (h : Derives (.conjunction c) (p ++ t) (trim t))
    (hor : after? "or" t = none) : Derives (.disjunction c) (p ++ t) (trim t) :=
  .disjunction h (.alternativesEnd (by rwa [after?_trim]))

namespace Spells

/-- What spells a condition begins with no blank. -/
theorem trim_append (h : Spells c p) (t : List Char) : trim (p ++ t) = p ++ t := by
  obtain ⟨d, s, rfl, hd⟩ := h.head
  exact trim_cons_of_not_isBlank hd

/-- A condition without connective is spelled if it is derived as a negation. -/
theorem of_negation (hc : c.connective? = none) (head : ∃ d s, p = d :: s ∧ isBlank d = false)
    (h : ∀ {t}, Closed t → Derives (.negation c) (p ++ t) (trim t)) : Spells c p where
  head := head
  negation _ _ := h
  conjunction _ _ ht := .conjunction_of_negation (by simp [hc]) (h ht)
  disjunction ht hand :=
    .disjunction_of_conjunction (.conjunction_of_negation (by simp [hc]) (h ht) hand)

/-- A condition in parentheses, which the scan takes for one. -/
theorem group (h : Spells c p) (hshow : ∀ t, showsCondition 1 none [] (p ++ t) = true)
    (t : List Char) : Derives (.negation c) ('(' :: (p ++ [')']) ++ t) (trim t) := by
  rw [List.cons_append, List.append_assoc]
  refine .group (hshow _) ?_
  rw [h.trim_append]
  exact h.disjunction closed_paren rfl rfl

/-- A condition is a negation, with parentheses if they are demanded. -/
theorem parensIf {demanded : Bool} (h : Spells c p)
    (hshow : demanded = true → ∀ t, showsCondition 1 none [] (p ++ t) = true)
    (hc : demanded = false → c.connective? = none) (ht : Closed t) :
    Derives (.negation c) (parensIf demanded p ++ t) (trim t) := by
  cases demanded with
  | true => exact h.group (hshow rfl) t
  | false => exact h.negation (hc rfl) ht

theorem trim_parensIf (h : Spells c p) (demanded : Bool) (t : List Char) :
    trim (DataPhrase.parensIf demanded p ++ t) = DataPhrase.parensIf demanded p ++ t := by
  cases demanded with
  | true => exact trim_cons_of_not_isBlank (by decide)
  | false => exact h.trim_append t

end Spells

/-! ### Comparisons and calls -/

/-- A sign is found behind the gap in front of it. -/
theorem trim_sign (y : Layout) (op : CompareOp) (t : List Char) :
    trim (y.gap ++ (op.sign.toList ++ t)) = op.sign.toList ++ t := by
  rw [trim_gap]
  cases op <;> exact trim_cons_of_not_isBlank (by decide)

/-- A sign is read as its comparison where it does not go on. -/
theorem sign?_sign {t : List Char} (h : ∀ u, t ≠ '=' :: u) (h' : ∀ u, t ≠ '>' :: u)
    (op : CompareOp) : sign? (op.sign.toList ++ t) = some (op, op.sign.toList.length) := by
  cases op with
  | eq | lt | gt => exact sign?_cons h h'
  | ne | le | ge => rfl

/-- A text that begins with no connective has no `not` in front. -/
theorem after?_not {s : List Char}
    (h : ∀ w r, wordAhead? s = some (w, r) → isConnective w = false) : after? "not" s = none := by
  refine after?_eq_none.mpr fun w r hw => ?_
  have := h w r hw
  rw [isConnective, Bool.or_eq_false_iff] at this
  exact this.2

/-- The print of a comparison spells it. -/
theorem spells_comparison {l r : Expr} (hl : l.IsOperand) (hr : r.IsOperand)
    (hs : y.Suits l.groupTexts) (op : CompareOp) :
    Spells (.comparison l op r) (print y (.comparison l op r)) := by
  have hleft := hl.printable.spells y
  have hright := hr.printable.spells y
  rw [print]
  refine .of_negation rfl ?_ ?_
  · obtain ⟨c, s, hcs, hc, -⟩ := hleft.head
    exact ⟨c, _, by rw [hcs, List.cons_append], not_isBlank_of_opensOperand hc⟩
  intro t ht
  simp only [List.append_assoc]
  have hends : Ends (y.gap ++ (op.sign.toList ++ (y.gap ++ (r.print y ++ t)))) := by
    refine Ends.gap ?_ y
    cases op <;> exact ends_cons (by decide)
  have hnot := after?_not (hl.printable.not_isConnective (y := y) hl.names hends)
  refine .unnegated hnot (hl.printable.groupAhead hl.names hs _) ?_
  have hq := hleft.derives hends (by rw [trim_sign]; cases op <;> rfl)
    (by rw [trim_sign]; cases op <;> rfl)
  rw [trim_sign] at hq
  refine .comparison hq (sign?_sign (hright.gap_append_ne (by decide) (by decide) y t)
    (hright.gap_append_ne (by decide) (by decide) y t) op) ?_
  rw [List.drop_left, trim_gap, hright.trim_append]
  exact hright.derives ht.ends ht.product ht.sum

/-- The print of a call spells it. -/
theorem spells_call {n : String} {es : List Expr} (h : (Expr.call n es).IsOperand) :
    Spells (.call n es) ((Expr.call n es).print y) := by
  have hspells := h.printable.spells y
  refine .of_negation rfl ?_ ?_
  · obtain ⟨c, s, hcs, hc, -⟩ := hspells.head
    exact ⟨c, s, hcs, not_isBlank_of_opensOperand hc⟩
  intro t ht
  have hnot := after?_not (h.printable.not_isConnective (y := y) h.names ht.ends)
  refine .unnegated hnot (h.printable.groupAhead h.names nofun _) ?_
  exact .call (hspells.derives ht.ends ht.product ht.sum) ht.sign

/-! ### Connectives -/

/-- The print of a negation spells it. -/
theorem Spells.not (h : Spells c (c.print y))
    (hshow : c.connective?.isSome = true → ∀ t, showsCondition 1 none [] (c.print y ++ t) = true) :
    Spells (.not c) (print y (.not c)) := by
  rw [print]
  refine .of_negation rfl ⟨'n', _, rfl, by decide⟩ ?_
  intro t ht
  simp only [List.append_assoc, List.cons_append]
  have hword : after? "not" ("not".toList ++ ' ' :: (y.gap ++
      (DataPhrase.parensIf c.connective?.isSome (c.print y) ++ t))) =
      some (' ' :: (y.gap ++ (DataPhrase.parensIf c.connective?.isSome (c.print y) ++ t))) := by
    rw [after?, Expr.wordAhead?_name (by decide) (by rintro _ ⟨⟩; decide)]
    rfl
  refine .not hword ?_
  rw [trim_cons_of_isBlank (by decide), trim_gap, h.trim_parensIf]
  exact h.parensIf hshow (by simp) ht

/-- Further conditions end the one in front of them. -/
theorem closed_printMore (ht : Closed t) : Closed (printMore y op cs ++ t) := by
  cases cs with
  | nil => exact ht
  | cons c cs =>
    rw [printMore, List.cons_append, List.append_assoc, List.append_assoc]
    exact closed_word y op _

/-- The conjuncts that are printed are derived. -/
theorem derives_conjuncts (hcs : ∀ c ∈ cs, (∀ t, trim (part y c ++ t) = part y c ++ t) ∧
      ∀ {t}, Closed t → Derives (.negation c) (part y c ++ t) (trim t))
    (ht : Closed t) (hand : after? "and" t = none) :
    Derives (.conjuncts cs) (trim (printMore y .and cs ++ t)) (trim t) := by
  induction cs with
  | nil => exact .conjunctsEnd (by rwa [after?_trim])
  | cons c cs ih =>
    rw [List.forall_mem_cons] at hcs
    rw [printMore]
    simp only [List.cons_append, List.append_assoc]
    refine .conjunctsMore (by rw [after?_trim]; exact after?_word y .and .and _) ?_ (ih hcs.2)
    rw [trim_cons_of_isBlank (by decide), trim_gap, ← part, hcs.1.1]
    exact hcs.1.2 (closed_printMore ht)

/-- An alternative does not begin with `and`. -/
theorem after?_and_printMore (hand : after? "and" t = none) :
    after? "and" (printMore y .or cs ++ t) = none := by
  cases cs with
  | nil => exact hand
  | cons c cs =>
    rw [printMore]
    simp only [List.cons_append, List.append_assoc]
    exact after?_word y .or .and _

/-- The alternatives that are printed are derived. -/
theorem derives_alternatives (hcs : ∀ c ∈ cs, (∀ t, trim (part y c ++ t) = part y c ++ t) ∧
      ∀ {t}, Closed t → after? "and" t = none → Derives (.conjunction c) (part y c ++ t) (trim t))
    (ht : Closed t) (hand : after? "and" t = none) (hor : after? "or" t = none) :
    Derives (.alternatives cs) (trim (printMore y .or cs ++ t)) (trim t) := by
  induction cs with
  | nil => exact .alternativesEnd (by rwa [after?_trim])
  | cons c cs ih =>
    rw [List.forall_mem_cons] at hcs
    rw [printMore]
    simp only [List.cons_append, List.append_assoc]
    refine .alternativesMore (by rw [after?_trim]; exact after?_word y .or .or _) ?_ (ih hcs.2)
    rw [trim_cons_of_isBlank (by decide), trim_gap, ← part, hcs.1.1]
    exact hcs.1.2 (closed_printMore ht) (after?_and_printMore hand)

/-- The print of a conjunction spells it. -/
theorem spells_and {c d : Condition}
    (hcs : ∀ a ∈ c :: d :: cs, (∀ t, trim (part y a ++ t) = part y a ++ t) ∧
      ∀ {t}, Closed t → Derives (.negation a) (part y a ++ t) (trim t))
    (hand : ∀ a ∈ c :: d :: cs, a.connective? ≠ some .and)
    (head : ∃ b s, part y c = b :: s ∧ isBlank b = false) :
    Spells (.logical .and (c :: d :: cs)) (printAll y .and (c :: d :: cs)) := by
  have hconj : ∀ {t}, Closed t → after? "and" t = none →
      Derives (.conjunction (.logical .and (c :: d :: cs)))
        (printAll y .and (c :: d :: cs) ++ t) (trim t) := by
    intro t ht hnone
    rw [← and_of_connective? hand (by simp), printAll, List.append_assoc, ← part]
    rw [List.forall_mem_cons] at hcs
    exact .conjunction (hcs.1.2 (closed_printMore ht)) (derives_conjuncts hcs.2 ht hnone)
  refine ⟨?_, nofun, fun _ => hconj, ?_⟩
  · obtain ⟨b, s, hbs, hb⟩ := head
    exact ⟨b, _, by rw [printAll, ← part, hbs, List.cons_append], hb⟩
  · exact fun ht hnone hor => .disjunction_of_conjunction (hconj ht hnone) hor

/-- The print of an alternative spells it. -/
theorem spells_or {c d : Condition}
    (hcs : ∀ a ∈ c :: d :: cs, (∀ t, trim (part y a ++ t) = part y a ++ t) ∧
      ∀ {t}, Closed t → after? "and" t = none →
        Derives (.conjunction a) (part y a ++ t) (trim t))
    (head : ∃ b s, part y c = b :: s ∧ isBlank b = false) :
    Spells (.logical .or (c :: d :: cs)) (printAll y .or (c :: d :: cs)) := by
  refine ⟨?_, nofun, fun h => absurd rfl h, ?_⟩
  · obtain ⟨b, s, hbs, hb⟩ := head
    exact ⟨b, _, by rw [printAll, ← part, hbs, List.cons_append], hb⟩
  · intro t ht hnone hor
    rw [printAll, List.append_assoc, ← part]
    rw [List.forall_mem_cons] at hcs
    exact .disjunction (hcs.1.2 (closed_printMore ht) (after?_and_printMore hnone))
      (derives_alternatives hcs.2 ht hnone hor)

/-- Every condition in normal form is printed as a text that is read as the condition. -/
theorem IsPrintable.spells (hc : c.IsPrintable) (hs : y.Suits c.scannedTexts) :
    Spells c (c.print y) := by
  induction hc with
  | comparison hl hr => exact spells_comparison hl hr hs _
  | call h => exact spells_call h
  | not hc ih =>
    -- only a connective is put in parentheses, and only there does the scan look at it
    rw [scannedTexts, Layout.suits_append] at hs
    refine (ih hs.2).not fun hop => hc.shows hop ?_
    rw [if_pos hop] at hs
    exact hs.1
  | @logical op c d cs h hand ih =>
    rw [scannedTexts, scannedTextsAll_eq] at hs
    have hspells : ∀ a ∈ c :: d :: cs, Spells a (a.print y) ∧ (a.connective? = some .or →
        ∀ t, showsCondition 1 none [] (a.print y ++ t) = true) := by
      intro a ha
      have hsa := Layout.suits_append.mp (hs.of_mem ha)
      refine ⟨ih a ha hsa.2, fun hor => (h a ha).shows (by simp [hor]) ?_⟩
      rw [if_pos hor] at hsa
      exact hsa.1
    have htrim : ∀ a ∈ c :: d :: cs, ∀ t, trim (part y a ++ t) = part y a ++ t :=
      fun a ha => (hspells a ha).1.trim_parensIf _
    have hhead : ∃ b s, part y c = b :: s ∧ isBlank b = false := by
      have := (hspells c List.mem_cons_self).1.head
      rw [part, parensIf]
      split
      · exact ⟨'(', _, rfl, by decide⟩
      · exact this
    rw [print]
    cases op with
    | and =>
      refine spells_and (fun a ha => ⟨htrim a ha, fun ht => ?_⟩) (hand rfl) hhead
      refine (hspells a ha).1.parensIf (by simpa using (hspells a ha).2) ?_ ht
      intro hor
      cases hop : a.connective? with
      | none => rfl
      | some k =>
        cases k with
        | and => exact absurd hop (hand rfl a ha)
        | or => simp [hop] at hor
    | or =>
      refine spells_or (fun a ha => ⟨htrim a ha, fun ht hnone => ?_⟩) hhead
      by_cases hor : a.connective? = some .or
      · refine .conjunction_of_negation (by simp [hor]) ?_ hnone
        exact (hspells a ha).1.parensIf (by simpa using (hspells a ha).2) (by simp [hor]) ht
      · rw [part, parensIf, if_neg (by simpa using hor)]
        exact (hspells a ha).1.conjunction hor ht hnone

/-! ## Everything that is printed is read back -/

theorem endsSolid_printMore (hp : EndsSolid p) (hcs : ∀ c ∈ cs, EndsSolid (part y c)) :
    EndsSolid (p ++ printMore y op cs) := by
  induction cs generalizing p with
  | nil =>
    rw [printMore, List.append_nil]
    exact hp
  | cons c cs ih =>
    rw [List.forall_mem_cons] at hcs
    have hmore := ih hcs.1 hcs.2
    exact ((((hmore.append _).cons ' ').append _).append (' ' :: y.gap)).append p

/-- A printed condition ends with no blank. -/
theorem IsPrintable.endsSolid (hc : c.IsPrintable) (y : Layout) : EndsSolid (c.print y) := by
  induction hc with
  | comparison _ hr => exact ((hr.printable.endsSolid y).append _).append _
  | call h => exact h.printable.endsSolid y
  | not _ ih => exact (((ih.parensIf _).append _).cons ' ').append _
  | logical _ _ ih =>
    rw [List.forall_mem_cons] at ih
    exact endsSolid_printMore (ih.1.parensIf _) fun a ha => (ih.2 a ha).parensIf _

/-- **Reading undoes printing.** The text of a condition in normal form is read to its end as the
condition, unless an escaped quote stands in a parenthesis in front of what tells whether the
parenthesis holds a condition. -/
theorem read_print_of_suits (hc : c.IsPrintable) (hs : y.Suits c.scannedTexts) :
    (read (c.print y)).Gives c [] := by
  have hspells := hc.spells hs
  have hd := hspells.disjunction closed_nil rfl rfl
  have htrim := hspells.trim_append []
  rw [List.append_nil] at hd htrim
  obtain ⟨q, hq, hrest⟩ := gives_read_iff.mpr (htrim.symm ▸ hd)
  rwa [(hc.endsSolid y).eq_nil_of_trim hq.suffix hrest] at hq

/-- Groups of both kinds, a quote in one of them, and every connective inside another. -/
theorem read_print_nested :
    let a : Condition := .comparison (.binary .multiply
      (.binary .add (.plain "x") (.text "it's")) (.plain "y")) .lt (.plain "z")
    let c : Condition := .logical .and [.not (.logical .or [a, .call "f" [.plain "x"]]),
      .logical .or [.logical .and [.not a, a], .call "f" [.plain "x"]]]
    String.ofList (c.print .tight) = "not ((x+\"it's\")*y<z or f(x)) and " ++
        "(not (x+\"it's\")*y<z and (x+\"it's\")*y<z or f(x))" ∧
      c.IsPrintable ∧ Layout.tight.Suits c.scannedTexts ∧ (read (c.print .tight)).Gives c [] := by
  intro a c
  have hfree : ∀ n ∈ ["x", "y", "z", "f"], Expr.IsFree n := by decide +kernel
  have hplain : ∀ n ∈ ["x", "y", "z"], (Expr.plain n).IsPrintable :=
    fun n hn => .plain (hfree n (List.mem_append_left ["f"] hn))
  have ha : a.IsPrintable :=
    .comparison
      ⟨.binary (.binary (hplain "x" (by decide)) .text) (hplain "y" (by decide)), by decide⟩
      ⟨hplain "z" (by decide), by decide⟩
  have hf : (Condition.call "f" [.plain "x"]).IsPrintable :=
    .call ⟨.call (hfree "f" (by decide)) (List.forall_mem_singleton.mpr (hplain "x" (by decide))),
      by decide⟩
  have hpair : ∀ {op} {c d : Condition}, c.IsPrintable → d.IsPrintable →
      (op = .and → ∀ a ∈ [c, d], a.connective? ≠ some .and) → (logical op [c, d]).IsPrintable :=
    fun hc hd => .logical (List.forall_mem_cons.mpr ⟨hc, List.forall_mem_singleton.mpr hd⟩)
  have hc : c.IsPrintable :=
    hpair (.not (hpair ha hf nofun)) (hpair (hpair (.not ha) ha fun _ => by decide) hf nofun)
      fun _ => by decide
  have hs : Layout.tight.Suits c.scannedTexts := by decide
  exact ⟨by decide +kernel, hc, hs, read_print_of_suits hc hs⟩

/-- The scan takes the escaped quote for the end of the text, and the equality sign in it for one
directly inside the parenthesis. -/
theorem not_read_print_escapedQuote :
    let c : Condition := .comparison (.binary .multiply
      (.binary .add (.plain "x") (.text "\"'=")) (.plain "y")) .gt (.plain "z")
    String.ofList (c.print .tight) = "(x+'\"\\'=')*y>z" ∧ c.IsPrintable ∧
      ¬ (read (c.print .tight)).Gives c [] := by
  intro c
  have hplain : ∀ n ∈ ["x", "y", "z"], (Expr.plain n).IsPrintable := by
    have hfree : ∀ n ∈ ["x", "y", "z"], Expr.IsFree n := by decide +kernel
    exact fun n hn => .plain (hfree n hn)
  refine ⟨by decide +kernel, ?_, ?_⟩
  · exact .comparison
      ⟨.binary (.binary (hplain "x" (by decide)) .text) (hplain "y" (by decide)), by decide⟩
      ⟨hplain "z" (by decide), by decide⟩
  · have hfail : ¬ ∃ a, (read (c.print .tight)).Gives a [] := by decide +kernel
    exact fun h => hfail ⟨c, h⟩

end Condition

end DataPhrase
