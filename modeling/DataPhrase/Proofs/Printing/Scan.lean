/-
# The scan for a condition over printed expressions

An opening parenthesis is taken for the start of a condition if a scan finds a comparison sign or a
connective directly inside it. The scan knows no escapes, but otherwise it goes over a printed
expression from one end to the other: it finds nothing in the expression if no name is a connective
and no text holds the quote that it is written in (`Expr.IsOperand.skips`).
-/
import DataPhrase.Proofs.Grammar.Scan
import DataPhrase.Proofs.Printing.Expr

namespace DataPhrase

open Text Lexeme Condition

variable {y : Layout} {c : Char} {d : Nat} {s t w p q : List Char} {n : String} {e : Expr}
  {es : List Expr}

/-! ## Runs of the scan -/

namespace Condition

/-- The scan goes over the text with `d` parentheses open and has found nothing behind it. -/
def Skips (d : Nat) (p : List Char) : Prop :=
  ∀ t, ∃ w, Undecided d w ∧ showsCondition d none [] (p ++ t) = showsCondition d none w t

/-- Gaps are marks for a scan. -/
theorem isMark_gap (y : Layout) : ∀ c ∈ y.gap, IsMark d c :=
  fun c hc => isMark_of_isBlank (y.blank c hc)

/-- The marks of expressions, parentheses and quotes left aside. -/
theorem isMark_of_mem (hc : c ∈ ".,*/%+-".toList) : IsMark d c := by
  have hall : ".,*/%+-".toList.all (fun c => isPassed c && !isNameChar c &&
      !(c == '=' || c == '<' || c == '>' || c == '!')) = true := by decide
  have hmark := List.all_eq_true.mp hall c hc
  simp only [Bool.and_eq_true, Bool.not_eq_true', Bool.or_eq_false_iff, beq_eq_false_iff_ne]
    at hmark
  obtain ⟨⟨hpassed, hname⟩, ⟨⟨heq, hlt⟩, hgt⟩, hne⟩ := hmark
  refine ⟨hpassed, hname, ?_⟩
  rintro - (h | h | h | h)
  · exact heq h
  · exact hlt h
  · exact hgt h
  · exact hne h

namespace Skips

theorem nil : Skips d [] :=
  fun _ => ⟨[], undecided_nil, rfl⟩

/-- A word that is no connective is skipped. -/
theorem word (hp : ∀ c ∈ p, isNameChar c = true) (hc : d = 1 → isConnective p = false) :
    Skips d p := by
  intro t
  refine ⟨p.reverse, ?_, ?_⟩
  · rwa [Undecided, List.reverse_reverse]
  · rw [showsCondition_word hp, List.append_nil]

/-- Two texts with marks between them. -/
theorem join (hp : Skips d p) {m : List Char} (hm : ∀ c ∈ m, IsMark d c) (hne : m ≠ [])
    (hq : Skips d q) : Skips d (p ++ (m ++ q)) := by
  intro t
  obtain ⟨v, hv, h⟩ := hp (m ++ (q ++ t))
  obtain ⟨w, hw, h'⟩ := hq t
  refine ⟨w, hw, ?_⟩
  rw [List.append_assoc, List.append_assoc, h, showsCondition_marks hv hm hne, h']

/-- Two texts with one mark between them. -/
theorem mark (hp : Skips d p) (hc : c ∈ ".,*/%+-".toList) (hq : Skips d q) :
    Skips d (p ++ c :: q) :=
  hp.join (List.forall_mem_singleton.mpr (isMark_of_mem hc)) (List.cons_ne_nil c []) hq

/-- A group, perhaps with a name in front. -/
theorem group (hd : 1 ≤ d) (hp : Skips d p) (hq : Skips (d + 1) q) :
    Skips d (p ++ '(' :: (q ++ [')'])) := by
  intro t
  obtain ⟨v, hv, h⟩ := hp ('(' :: (q ++ ')' :: t))
  obtain ⟨w, -, h'⟩ := hq (')' :: t)
  refine ⟨[], undecided_nil, ?_⟩
  rw [List.append_assoc, List.cons_append, List.append_assoc, List.singleton_append, h,
    showsCondition_open hv, h', showsCondition_close hd]

/-- Parentheses that are demanded are skipped with what is inside them. -/
theorem parensIf {demanded : Bool} (hd : 1 ≤ d) (hp : Skips d p) (hq : Skips (d + 1) p) :
    Skips d (parensIf demanded p) := by
  cases demanded with
  | true => exact nil.group hd hq
  | false => exact hp

end Skips

/-- Digits are the same in both cases. -/
theorem toLower_of_isDigit (hc : isDigit c = true) : c.toLower = c := by
  have hall : ∀ n < 58, 48 ≤ n → (Char.ofNat n).toLower = Char.ofNat n := by decide
  obtain ⟨h1, h2⟩ := Expr.isDigit_iff.mp hc
  rw [← Char.ofNat_toNat c]
  exact hall c.toNat (by omega) h1

/-- Digits make no connective. -/
theorem isConnective_of_isDigit (hw : ∀ c ∈ w, isDigit c = true) : isConnective w = false := by
  have hlower : lower w = w := by
    rw [lower, List.map_congr_left fun c hc => toLower_of_isDigit (hw c hc), List.map_id']
  have hword : ∀ c k, isDigit c.toLower = false → sameWord w (c :: k) = false := by
    intro c k hc
    rw [sameWord, hlower, beq_eq_false_iff_ne]
    rintro rfl
    have := hw c.toLower List.mem_cons_self
    rw [hc] at this
    cases this
  rw [isConnective, Bool.or_eq_false_iff, Bool.or_eq_false_iff]
  exact ⟨⟨hword 'a' _ (by decide), hword 'o' _ (by decide)⟩, hword 'n' _ (by decide)⟩

/-- The digits, the point and the sign of a number. -/
theorem Skips.number (hp : ∀ c ∈ p, isDigit c = true ∨ IsMark d c) : Skips d p := by
  intro t
  -- what the scan takes for a word on the way is made of digits
  have hrun : ∀ w, (∀ c ∈ w, isDigit c = true) → ∃ v, (∀ c ∈ v, isDigit c = true) ∧
      showsCondition d none w (p ++ t) = showsCondition d none v t := by
    induction p with
    | nil => exact fun w hw => ⟨w, hw, rfl⟩
    | cons c p ih =>
      intro w hw
      rw [List.forall_mem_cons] at hp
      rw [List.cons_append]
      rcases hp.1 with hc | hc
      · obtain ⟨v, hv, h⟩ := ih hp.2 (c :: w) (List.forall_mem_cons.mpr ⟨hc, hw⟩)
        have hn : isNameChar c = true := by
          simp [isNameChar, isAlphanumeric, show c.isDigit = true from hc]
        exact ⟨v, hv, by rw [showsCondition_name hn, h]⟩
      · obtain ⟨v, hv, h⟩ := ih hp.2 [] (List.forall_mem_nil _)
        have hw' : Undecided d w := fun _ => isConnective_of_isDigit fun c hc =>
          hw c (List.mem_reverse.mp hc)
        exact ⟨v, hv, by rw [showsCondition_mark hw' hc, h]⟩
  obtain ⟨v, hv, h⟩ := hrun [] (List.forall_mem_nil _)
  exact ⟨v, fun _ => isConnective_of_isDigit fun c hc => hv c (List.mem_reverse.mp hc), h⟩

/-- A text that does not hold the quote that it is written in. -/
theorem skips_text {s : String} (hs : y.quote s ∉ s.toList) : Skips d (y.text s) := by
  intro t
  have hq := y.isQuote s
  refine ⟨[], undecided_nil, ?_⟩
  have hinside : ∀ p u, y.quote s ∉ p → showsCondition d (some (y.quote s)) []
      (p ++ y.quote s :: u) = showsCondition d none [] u := by
    intro p u hp
    induction p with
    | nil => rw [List.nil_append, showsCondition, if_pos rfl]
    | cons c p ih =>
      rw [List.mem_cons, not_or] at hp
      rw [List.cons_append, showsCondition, if_neg (Ne.symm hp.1), ih hp.2]
  rw [Layout.text, List.cons_append, showsCondition, if_neg (by simp [isNameChar_of_isQuote hq]),
    if_neg fun h => absurd h.2 (by decide), if_pos hq, List.append_assoc, List.singleton_append,
    hinside]
  intro hm
  obtain ⟨c, hc, hm⟩ := List.mem_flatMap.mp hm
  have hslash : y.quote s ≠ '\\' := by
    intro h
    rw [h] at hq
    exact absurd hq (by decide)
  have hne : y.quote s ≠ c := fun h => hs (h ▸ hc)
  rw [Layout.escape] at hm
  split at hm <;> simp [hslash, hne] at hm

end Condition

namespace Expr

/-! ## Names and texts of expressions -/

mutual

/-- The names in an expression: of fields, of what stands in front of their points, and of calls. -/
def names : Expr → List String
  | .field q n => q.toList ++ [n]
  | .call n args => n :: namesAll args
  | .binary _ l r => l.names ++ r.names
  | .negate e => e.names
  | .literal _ | .metric _ _ | .star => []

/-- The names in a list of expressions. -/
def namesAll : List Expr → List String
  | [] => []
  | e :: r => e.names ++ namesAll r

end

mutual

/-- The texts in an expression. -/
def texts : Expr → List String
  | .literal (.text s) => [s]
  | .call _ args => textsAll args
  | .binary _ l r => l.texts ++ r.texts
  | .negate e => e.texts
  | .literal _ | .field _ _ | .metric _ _ | .star => []

/-- The texts in a list of expressions. -/
def textsAll : List Expr → List String
  | [] => []
  | e :: r => e.texts ++ textsAll r

end

/-- The texts in the group that an expression starts with, if it is printed with one in front. -/
def groupTexts : Expr → List String
  | .binary op l _ => if l.rank < op.precedence then l.texts else l.groupTexts
  | _ => []

/-- An expression that can be an operand in a condition: none of its names parts conditions. -/
structure IsOperand (e : Expr) : Prop where
  printable : e.IsPrintable
  names : ∀ n ∈ e.names, isConnective n.toList = false

end Expr

/-- No text holds the quote that it is written in, so that none is written with an escape in front
of a quote. -/
def Layout.Suits (y : Layout) (texts : List String) : Prop :=
  ∀ s ∈ texts, y.quote s ∉ s.toList

theorem Layout.Suits.of_mem {α : Type} {f : α → List String} {l : List α}
    (h : y.Suits (l.flatMap f)) {a : α} (ha : a ∈ l) : y.Suits (f a) :=
  fun s hs => h s (List.mem_flatMap_of_mem ha hs)

/-- A layout suits texts if it suits each of them. -/
theorem Layout.suits_append {a b : List String} : y.Suits (a ++ b) ↔ y.Suits a ∧ y.Suits b :=
  List.forall_mem_append

instance (y : Layout) (texts : List String) : Decidable (y.Suits texts) :=
  inferInstanceAs (Decidable (∀ s ∈ texts, _))

namespace Expr

theorem namesAll_eq (es : List Expr) : namesAll es = es.flatMap names := by
  induction es with
  | nil => rfl
  | cons e es ih => rw [namesAll, ih, List.flatMap_cons]

theorem textsAll_eq (es : List Expr) : textsAll es = es.flatMap texts := by
  induction es with
  | nil => rfl
  | cons e es ih => rw [textsAll, ih, List.flatMap_cons]

/-! ## Scans of expressions -/

/-- A name that is no connective is skipped. -/
theorem skips_name (hn : isIdentifier n = true) (hc : isConnective n.toList = false) :
    Skips d n.toList := by
  obtain ⟨c, s, hcs, -, hs⟩ := isIdentifier_iff.mp hn
  exact .word (hcs ▸ hs) fun _ => hc

theorem skips_constant {w : String} (hw : w ∈ ["true", "false", "null"]) : Skips d w.toList := by
  have hword : ∀ w ∈ ["true", "false", "null"],
      isIdentifier w = true ∧ isConnective w.toList = false := by decide
  exact skips_name (hword w hw).1 (hword w hw).2

/-- The text of a number is skipped. -/
theorem skips_number (x : Number) (hx : x.isFinite = true) : Skips d x.text := by
  have hunsigned : ∀ c ∈ x.unsignedText, isDigit c = true ∨ IsMark d c := by
    obtain ⟨-, -, -, -, h⟩ := Number.positional_spelling (Number.shortest .up x.place)
    rw [Number.unsignedText, if_pos hx]
    intro c hc
    have hnumber := h c hc
    rw [isNumberChar, Bool.or_eq_true, beq_iff_eq] at hnumber
    refine hnumber.imp_right ?_
    rintro rfl
    exact isMark_of_mem (by decide)
  refine .number ?_
  rw [Number.text_eq]
  split
  · exact List.forall_mem_cons.mpr ⟨Or.inr (isMark_of_mem (by decide)), hunsigned⟩
  · exact hunsigned

/-- The symbols of operations are marks for a scan. -/
theorem isMark_symbol (op : ArithOp) : ∀ c ∈ op.symbol.toList, IsMark d c := by
  cases op <;> exact List.forall_mem_singleton.mpr (isMark_of_mem (by decide))

/-- The first argument and those behind it. -/
theorem skips_printMore {p : List Char} (hp : Skips d p) (hes : ∀ e ∈ es, Skips d (e.print y)) :
    Skips d (p ++ printMore y es) := by
  induction es generalizing p with
  | nil =>
    rw [printMore, List.append_nil]
    exact hp
  | cons e es ih =>
    rw [List.forall_mem_cons] at hes
    have hcomma : ∀ c ∈ ',' :: y.gap, IsMark d c :=
      List.forall_mem_cons.mpr ⟨isMark_of_mem (by decide), isMark_gap y⟩
    exact hp.join hcomma (List.cons_ne_nil _ _) (ih hes.1 hes.2)

/-- The arguments of a call are skipped one by one. -/
theorem skips_printAll (hes : ∀ e ∈ es, Skips d (e.print y)) : Skips d (printAll y es) := by
  cases es with
  | nil => exact .nil
  | cons e es =>
    rw [List.forall_mem_cons] at hes
    exact skips_printMore hes.1 hes.2

/-- **The scan goes over a printed expression** and finds nothing in it. -/
theorem IsPrintable.skips (he : e.IsPrintable) (hn : ∀ n ∈ e.names, isConnective n.toList = false)
    (hs : y.Suits e.texts) (hd : 1 ≤ d) : Skips d (e.print y) := by
  induction he generalizing d with
  | number hx => exact skips_number _ hx
  | text => exact skips_text (hs _ List.mem_cons_self)
  | @boolean b =>
    cases b with
    | true => exact skips_constant (w := "true") (by decide)
    | false => exact skips_constant (w := "false") (by decide)
  | null => exact skips_constant (w := "null") (by decide)
  | plain h => exact skips_name h.1 (hn _ List.mem_cons_self)
  | @qualified q n h h' =>
    have hq := skips_name (d := d) h.1 (hn q List.mem_cons_self)
    have hm := skips_name (d := d) h' (hn n (List.mem_cons_of_mem _ List.mem_cons_self))
    exact hq.mark (by decide) hm
  | call h _ ih =>
    rw [names, List.forall_mem_cons, namesAll_eq] at hn
    rw [texts, textsAll_eq] at hs
    refine Skips.group hd (skips_name h.1 hn.1) (skips_printAll fun e he => ?_)
    exact ih e he (fun n hm => hn.2 n (List.mem_flatMap_of_mem he hm)) (hs.of_mem he) (by omega)
  | callStar h =>
    rw [names, List.forall_mem_cons] at hn
    exact Skips.group hd (skips_name h.1 hn.1) (Skips.nil.mark (by decide) .nil)
  | @binary op l r _ _ ihl ihr =>
    rw [names, List.forall_mem_append] at hn
    rw [texts, Layout.suits_append] at hs
    have hsign : ∀ c ∈ y.gap ++ op.symbol.toList ++ y.gap, IsMark d c := by
      simp only [List.forall_mem_append]
      exact ⟨⟨isMark_gap y, isMark_symbol op⟩, isMark_gap y⟩
    refine Skips.join ?_ hsign (by cases op <;> simp [ArithOp.symbol]) ?_
    · exact (ihl hn.1 hs.1 hd).parensIf hd (ihl hn.1 hs.1 (by omega))
    · exact (ihr hn.2 hs.2 hd).parensIf hd (ihr hn.2 hs.2 (by omega))
  | negate _ ih =>
    exact Skips.nil.mark (by decide) ((ih hn hs hd).parensIf hd (ih hn hs (by omega)))

/-- A printed operand is skipped. -/
theorem IsOperand.skips (he : e.IsOperand) (hs : y.Suits e.texts) (hd : 1 ≤ d) :
    Skips d (e.print y) :=
  he.printable.skips he.names hs hd

/-! ## How printed expressions start -/

/-- The text of a number begins with a sign or a digit. -/
theorem exists_head_number {x : Number} (hx : x.isFinite = true) :
    ∃ c s, x.text = c :: s ∧ (c = '-' ∨ isDigit c = true) := by
  rw [Number.text_eq]
  split
  · exact ⟨'-', _, rfl, Or.inl rfl⟩
  · have hdigit := Number.head?_unsignedText hx
    cases hu : x.unsignedText with
    | nil =>
      rw [hu] at hdigit
      cases hdigit
    | cons c s =>
      rw [hu] at hdigit
      exact ⟨c, s, rfl, Or.inr hdigit⟩

/-- Unless an operation is printed with a group in front, no group is. -/
theorem IsPrintable.exists_head (he : e.IsPrintable) (hr : e.rank = 3) (y : Layout) :
    ∃ c s, e.print y = c :: s ∧ c ≠ '(' := by
  have hname : ∀ {n} (u : List Char), isIdentifier n = true →
      ∃ c s, n.toList ++ u = c :: s ∧ c ≠ '(' := by
    intro n u hn
    obtain ⟨c, s, hcs, hc, -⟩ := isIdentifier_iff.mp hn
    exact ⟨c, s ++ u, by rw [hcs, List.cons_append], (not_other_of_isNameStart hc).1⟩
  cases he with
  | number hx =>
    obtain ⟨c, s, hcs, hc⟩ := exists_head_number hx
    refine ⟨c, s, hcs, ?_⟩
    rcases hc with rfl | hc
    · decide
    · exact (not_other_of_isDigit hc).1
  | text => exact ⟨_, _, rfl, ne_paren_of_isQuote (y.isQuote _)⟩
  | @boolean b => cases b <;> exact ⟨_, _, rfl, by decide⟩
  | null => exact ⟨_, _, rfl, by decide⟩
  | plain h =>
    have := hname [] h.1
    rwa [List.append_nil] at this
  | qualified h _ => exact hname _ h.1
  | call h _ => exact hname _ h.1
  | callStar h => exact hname _ h.1
  | @binary op => cases op <;> cases hr
  | negate => exact ⟨'-', _, rfl, by decide⟩

/-- Only a parenthesis opens a group. -/
theorem groupAhead_of_ne (hc : c ≠ '(') : groupAhead (c :: s) = false := by
  unfold groupAhead
  split
  · next h =>
    cases h
    exact absurd rfl hc
  · rfl

/-- **The group in front of a printed expression is not taken for a condition.** -/
theorem IsPrintable.groupAhead (he : e.IsPrintable)
    (hn : ∀ n ∈ e.names, isConnective n.toList = false) (hs : y.Suits e.groupTexts)
    (t : List Char) : groupAhead (e.print y ++ t) = false := by
  have hhead : e.rank = 3 → Condition.groupAhead (e.print y ++ t) = false := by
    intro hr
    obtain ⟨c, s, hcs, hc⟩ := he.exists_head hr y
    rw [hcs]
    exact groupAhead_of_ne hc
  -- only an operation has a group in front: its left operand, or the group in front of that
  induction he generalizing t with
  | @binary op l r hl _ ihl _ =>
    rw [names, List.forall_mem_append] at hn
    rw [Layout.Suits, groupTexts] at hs
    rw [print, parensIf, List.append_assoc]
    split
    · next hrank =>
      rw [if_pos (by simpa using hrank)] at hs
      obtain ⟨v, hv, h⟩ := hl.skips hn.1 hs (Nat.le_refl 1) (')' :: (y.gap ++ op.symbol.toList ++
        y.gap ++ parensIf (r.rank ≤ op.precedence) (r.print y) ++ t))
      rw [List.cons_append, List.append_assoc, List.singleton_append]
      show showsCondition 1 none [] _ = false
      rw [h, showsCondition, if_neg (by decide), if_neg hv.not_decides, if_neg (by decide),
        if_neg (by decide), if_pos rfl, if_pos (Nat.le_refl 1)]
    · next hrank =>
      rw [if_neg (by simpa using hrank)] at hs
      refine ihl hn.1 hs _ fun hr => ?_
      obtain ⟨c, s, hcs, hc⟩ := hl.exists_head hr y
      rw [hcs]
      exact groupAhead_of_ne hc
  | _ => exact hhead rfl

/-- No word begins with a character that begins no name. -/
theorem wordAhead?_of_not_isNameStart (hb : isBlank c = false) (hc : isNameStart c = false) :
    wordAhead? (c :: t) = none := by
  rw [wordAhead?, trim_cons_of_not_isBlank hb]
  simp [hc]

/-- A printed name is the word in front. -/
theorem wordAhead?_name (hn : isIdentifier n = true) (ht : ∀ c ∈ t.head?, isNameChar c = false) :
    wordAhead? (n.toList ++ t) = some (n.toList, t) := by
  obtain ⟨c, s, hcs, hc, hs⟩ := isIdentifier_iff.mp hn
  rw [List.forall_mem_cons] at hs
  have hb := not_isBlank_of_isNameChar hs.1
  obtain ⟨h1, h2⟩ := span_append hs.2 ht
  rw [wordAhead?, hcs, List.cons_append, trim_cons_of_not_isBlank hb]
  simp [hc, h1, h2]

theorem not_isNameStart_of_isDigit (hc : isDigit c = true) : isNameStart c = false := by
  by_contra h
  rw [(not_other_of_isNameStart (by simpa using h)).2.2] at hc
  cases hc

/-- An operand ends in front of the symbol of an operation. -/
theorem ends_symbol (op : ArithOp) (y : Layout) (t : List Char) :
    Ends (y.gap ++ (op.symbol.toList ++ t)) := by
  refine Ends.gap ?_ y
  cases op <;> exact ends_cons (by decide)

/-- **No connective stands in front of a printed expression.** -/
theorem IsPrintable.not_isConnective (he : e.IsPrintable)
    (hn : ∀ n ∈ e.names, isConnective n.toList = false) (ht : Ends t) :
    ∀ v r, wordAhead? (e.print y ++ t) = some (v, r) → isConnective v = false := by
  have hmark : ∀ {c s}, isBlank c = false → isNameStart c = false →
      ∀ v r, wordAhead? (c :: s) = some (v, r) → isConnective v = false := by
    intro c s hb hc v r h
    rw [wordAhead?_of_not_isNameStart hb hc] at h
    cases h
  have hname : ∀ {n t}, isIdentifier n = true → isConnective n.toList = false →
      (∀ c ∈ t.head?, isNameChar c = false) →
      ∀ v r, wordAhead? (n.toList ++ t) = some (v, r) → isConnective v = false := by
    intro n t hn hc ht v r h
    rw [wordAhead?_name hn ht] at h
    cases h
    exact hc
  have hbehind : ∀ {n c u t}, isIdentifier n = true → isConnective n.toList = false →
      isNameChar c = false →
      ∀ v r, wordAhead? (n.toList ++ c :: u ++ t) = some (v, r) → isConnective v = false := by
    intro n c u t hn hc hend
    rw [List.append_assoc]
    refine hname hn hc ?_
    rintro _ ⟨⟩
    exact hend
  have hends : ∀ c ∈ t.head?, isNameChar c = false := fun c hc => (ht.head c hc).1
  induction he generalizing t with
  | number hx =>
    obtain ⟨c, s, hcs, hc⟩ := exists_head_number hx
    rw [Expr.number, print, hcs]
    rcases hc with rfl | hc
    · exact hmark (by decide) (by decide)
    · exact hmark (not_isBlank_of_opensOperand (by simp [opensOperand, hc]))
        (not_isNameStart_of_isDigit hc)
  | @text s =>
    have hq := y.isQuote s
    refine hmark (not_isBlank_of_opensOperand (by simp [opensOperand, hq])) ?_
    by_contra hc
    rw [(not_other_of_isNameStart (by simpa using hc)).2.1] at hq
    cases hq
  | @boolean b =>
    cases b with
    | true => exact hname (n := "true") (by decide) (by decide) hends
    | false => exact hname (n := "false") (by decide) (by decide) hends
  | null => exact hname (n := "null") (by decide) (by decide) hends
  | plain h => exact hname h.1 (hn _ List.mem_cons_self) hends
  | qualified h _ => exact hbehind h.1 (hn _ List.mem_cons_self) (by decide)
  | call h _ => exact hbehind h.1 (hn _ List.mem_cons_self) (by decide)
  | callStar h => exact hbehind h.1 (hn _ List.mem_cons_self) (by decide)
  | @binary op l r _ _ ihl _ =>
    rw [names, List.forall_mem_append] at hn
    rw [print, parensIf, List.append_assoc]
    split
    · exact hmark (by decide) (by decide)
    · simp only [List.append_assoc]
      have hsign := ends_symbol op y (y.gap ++ (parensIf (r.rank ≤ op.precedence) (r.print y) ++ t))
      exact ihl hn.1 hsign fun c hc => (hsign.head c hc).1
  | negate => exact hmark (by decide) (by decide)

end Expr

/-! ## How printed expressions end -/

/-- A text that ends with no blank still does so in parentheses. -/
theorem Lexeme.EndsSolid.parensIf {p : List Char} (hp : EndsSolid p) (demanded : Bool) :
    EndsSolid (parensIf demanded p) := by
  cases demanded with
  | true => exact ((endsSolid_singleton (by decide)).append p).cons '('
  | false => exact hp

theorem endsSolid_identifier {n : String} (hn : isIdentifier n = true) : EndsSolid n.toList := by
  obtain ⟨c, s, hcs, -, hs⟩ := isIdentifier_iff.mp hn
  rw [hcs]
  exact endsSolid_of_forall (List.cons_ne_nil c s) fun d hd => not_isBlank_of_isNameChar (hs d hd)

theorem Expr.endsSolid_number {x : Number} (hx : x.isFinite = true) : EndsSolid x.text := by
  obtain ⟨c, s, hcs, -, h⟩ := Number.positional_spelling (Number.shortest .up x.place)
  have hunsigned : EndsSolid x.unsignedText := by
    rw [Number.unsignedText, if_pos hx]
    refine endsSolid_of_forall (by rw [hcs]; exact List.cons_ne_nil c s) fun d hd => ?_
    by_contra hb
    have := h d hd
    rw [isNumberChar_of_isBlank (by simpa using hb)] at this
    cases this
  rw [Number.text_eq]
  split
  · exact hunsigned.cons '-'
  · exact hunsigned

/-- A printed expression ends with no blank. -/
theorem Expr.IsPrintable.endsSolid {e : Expr} (he : e.IsPrintable) (y : Layout) :
    EndsSolid (e.print y) := by
  induction he with
  | number hx => exact endsSolid_number hx
  | @text s =>
    have hq : isBlank (y.quote s) = false :=
      not_isBlank_of_opensOperand (by simp [opensOperand, y.isQuote s])
    exact ((endsSolid_singleton hq).append _).cons _
  | @boolean b =>
    cases b with
    | true => exact endsSolid_identifier (n := "true") (by decide)
    | false => exact endsSolid_identifier (n := "false") (by decide)
  | null => exact endsSolid_identifier (n := "null") (by decide)
  | plain hn => exact endsSolid_identifier hn.1
  | qualified _ hn => exact ((endsSolid_identifier hn).cons '.').append _
  | call => exact (((endsSolid_singleton (by decide)).append _).cons '(').append _
  | callStar => exact (((endsSolid_singleton (by decide)).append _).cons '(').append _
  | binary _ _ _ ihr => exact ((ihr.parensIf _).append _).append _
  | negate _ ih => exact (ih.parensIf _).cons '-'

end DataPhrase
