/-
# Printing expressions

An expression is printed with the parentheses that the precedence of its operations demands, and
with no others. Whatever blanks are put around signs and whichever quotes around texts, what is
printed is read to its end as the expression that was printed (`Expr.read_print`).
-/
import DataPhrase.Dictionary.Entry
import DataPhrase.Proofs.Grammar.Behind
import DataPhrase.Proofs.Number.ReadBack

namespace DataPhrase

open Text Lexeme

/-! ## The printer -/

/-- What is left open when a tree is printed: the blanks around signs and behind commas, none
perhaps, and the quotes around each text. -/
structure Layout where
  gap : List Char
  quote : String → Char
  blank : ∀ c ∈ gap, isBlank c = true
  isQuote : ∀ s, Token.isQuote (quote s) = true

namespace Layout

/-- A character of a text between two quotes `q`. -/
def escape (q c : Char) : List Char :=
  if c = q ∨ c = '\\' then ['\\', c] else [c]

/-- A text in its quotes. -/
def text (y : Layout) (s : String) : List Char :=
  y.quote s :: (s.toList.flatMap (escape (y.quote s)) ++ [y.quote s])

/-- No blanks, and quotes that the text does not hold, unless it holds both kinds. -/
def tight : Layout where
  gap := []
  quote s := if '"' ∈ s.toList then '\'' else '"'
  blank := nofun
  isQuote s := by split <;> rfl

end Layout

/-- Put parentheses around a text, if they are demanded. -/
def parensIf (demanded : Bool) (p : List Char) : List Char :=
  if demanded then '(' :: (p ++ [')']) else p

namespace Expr

/-- How tightly an expression holds together: products above sums, operands and their signs above
both. -/
def rank : Expr → Nat
  | .binary op _ _ => op.precedence
  | _ => 3

/-- A number that is written without a sign. -/
def isUnsigned : Expr → Bool
  | .literal (.number x) => !x.negative
  | _ => false

mutual

/-- The text of an expression. A minus in front of a number would be read as the number's own, so
the number stands in parentheses there. No statement can write a metric; it is given its name. -/
def print (y : Layout) : Expr → List Char
  | .literal (.number x) => x.text
  | .literal (.text s) => y.text s
  | .literal (.boolean b) => if b then "true".toList else "false".toList
  | .literal .null => "null".toList
  | .field (some q) n => q.toList ++ '.' :: n.toList
  | .field none n => n.toList
  | .metric _ n => n.toList
  | .call n args => n.toList ++ '(' :: (printAll y args ++ [')'])
  | .binary op l r =>
    parensIf (l.rank < op.precedence) (l.print y) ++
      (y.gap ++ op.symbol.toList ++ y.gap ++ parensIf (r.rank ≤ op.precedence) (r.print y))
  | .negate e => '-' :: parensIf (e.rank < 3 || e.isUnsigned) (e.print y)
  | .star => ['*']

/-- The text of a list of arguments. -/
def printAll (y : Layout) : List Expr → List Char
  | [] => []
  | e :: r => e.print y ++ printMore y r

/-- The text of the arguments behind the first. -/
def printMore (y : Layout) : List Expr → List Char
  | [] => []
  | e :: r => ',' :: (y.gap ++ (e.print y ++ printMore y r))

end

/-- A name that no constant has. -/
def IsFree (n : String) : Prop :=
  isIdentifier n = true ∧ constant? n.toList = none

instance : Decidable (IsFree n) :=
  inferInstanceAs (Decidable (_ ∧ _))

/-- An expression that statements can write: names are identifiers, constants are no names except
behind a point, and a star is the only argument of its call. -/
inductive IsPrintable : Expr → Prop where
  | number {x : Number} (hx : x.isFinite = true) : IsPrintable (.number x)
  | text {s : String} : IsPrintable (.text s)
  | boolean {b : Bool} : IsPrintable (.literal (.boolean b))
  | null : IsPrintable (.literal .null)
  | plain {n : String} (hn : IsFree n) : IsPrintable (.plain n)
  | qualified {q n : String} (hq : IsFree q) (hn : isIdentifier n = true) :
      IsPrintable (.field (some q) n)
  | call {n : String} {args : List Expr} (hn : IsFree n) (hargs : ∀ e ∈ args, IsPrintable e) :
      IsPrintable (.call n args)
  | callStar {n : String} (hn : IsFree n) : IsPrintable (.call n [.star])
  | binary {op : ArithOp} {l r : Expr} (hl : IsPrintable l) (hr : IsPrintable r) :
      IsPrintable (.binary op l r)
  | negate {e : Expr} (he : IsPrintable e) : IsPrintable (.negate e)

end Expr

variable {c : Char} {s t : List Char} {n : String} {e : Expr} {es : List Expr}

/-! ## Where an operand ends -/

/-- The text goes on neither with the characters of an operand in front of it nor, behind blanks,
with a group or the rest of a qualified name. -/
structure Ends (t : List Char) : Prop where
  head : ∀ c ∈ t.head?, isNameChar c = false ∧ Expr.isNumberChar c = false
  name : Expr.endsName (trim t) = true

theorem ends_nil : Ends [] :=
  ⟨nofun, rfl⟩

/-- A mark that no operand goes on with. -/
def endsOperand (c : Char) : Bool :=
  !isNameChar c && c != '.' && !isBlank c && c != '('

/-- A character that ends operands ends one. -/
theorem ends_cons (h : endsOperand c = true) : Ends (c :: t) := by
  simp only [endsOperand, Bool.and_eq_true, Bool.not_eq_true', bne_iff_ne, ne_eq] at h
  obtain ⟨⟨⟨hn, hd⟩, hb⟩, hp⟩ := h
  refine ⟨?_, ?_⟩
  · rintro _ ⟨⟩
    refine ⟨hn, ?_⟩
    by_contra hnumber
    have hdigit : c.isDigit = true := by simpa [Expr.isNumberChar, isDigit, hd] using hnumber
    simp [isNameChar, isAlphanumeric, hdigit] at hn
  · rw [trim_cons_of_not_isBlank hb]
    exact Expr.endsName_of_ne hp hd

theorem not_isBlank_of_endsOperand (h : endsOperand c = true) : isBlank c = false := by
  simp only [endsOperand, Bool.and_eq_true, Bool.not_eq_true'] at h
  exact h.1.2

/-- The gaps of a layout are skipped. -/
theorem trim_gap (y : Layout) (t : List Char) : trim (y.gap ++ t) = trim t := by
  rw [trim, List.dropWhile_append_of_pos y.blank, trim]

/-- Behind a blank, only a group or a point goes on with an operand. -/
theorem ends_of_blank (hc : isBlank c = true) (ht : Expr.endsName (trim t) = true) :
    Ends (c :: t) where
  head := by
    rintro d ⟨⟩
    exact ⟨not_isNameChar_of_isBlank hc, Expr.isNumberChar_of_isBlank hc⟩
  name := by rwa [trim_cons_of_isBlank hc]

/-- An operand ends in front of a gap too. -/
theorem Ends.gap (ht : Ends t) (y : Layout) : Ends (y.gap ++ t) := by
  obtain ⟨g, _, hg, -⟩ := y
  show Ends (g ++ t)
  cases g with
  | nil => exact ht
  | cons c g =>
    rw [List.forall_mem_cons] at hg
    refine ends_of_blank hg.1 ?_
    show Expr.endsName (trim (g ++ t)) = true
    rw [trim, List.dropWhile_append_of_pos hg.2, ← trim]
    exact ht.name

/-- A run of characters of one kind is taken off in front of a text that opens with another kind. -/
theorem span_append {p : Char → Bool} (hs : ∀ c ∈ s, p c = true) (ht : ∀ c ∈ t.head?, p c = false) :
    (s ++ t).takeWhile p = s ∧ (s ++ t).dropWhile p = t := by
  rw [List.takeWhile_append_of_pos hs, List.dropWhile_append_of_pos hs]
  cases t with
  | nil => exact ⟨List.append_nil s, rfl⟩
  | cons c t =>
    have hc : p c = false := ht c rfl
    rw [List.takeWhile_cons_of_neg (by simp [hc]), List.dropWhile_cons_of_neg (by simp [hc])]
    exact ⟨List.append_nil s, rfl⟩

/-! ## Where an operand starts -/

/-- The characters that an operand with its signs may start with. -/
def opensOperand (c : Char) : Bool :=
  c == '-' || c == '(' || Token.isQuote c || isDigit c || isNameStart c

theorem not_isBlank_of_opensOperand (h : opensOperand c = true) : isBlank c = false := by
  rcases (Bool.or_eq_true _ _).mp h with h | h
  · rw [Bool.eq_false_iff]
    intro hb
    have := forall_isBlank (p := fun c => !(c == '-' || c == '(' || Token.isQuote c || isDigit c))
      (by decide) hb
    rw [h] at this
    cases this
  · exact not_isBlank_of_isNameChar (isNameChar_of_isNameStart h)

/-- What opens an operand differs from every character that does not. -/
theorem ne_of_opensOperand {d : Char} (h : opensOperand c = true) (hd : opensOperand d = false) :
    c ≠ d := by
  rintro rfl
  rw [h] at hd
  cases hd

namespace Expr

/-! ## How a text is read wherever it stands -/

/-- In front of everything that ends an operand the text is read as the expression: as a signed
operand, as the first factors of a product and as the first summands of a sum, as far as the rank
allows. Only a number without sign starts an operand with a digit. -/
structure Spells (rank : Nat) (e : Expr) (p : List Char) : Prop where
  head : ∃ c s, p = c :: s ∧ opensOperand c = true ∧
    (3 ≤ rank → e.isUnsigned = false → isDigit c = false)
  signed : 3 ≤ rank → ∀ {t}, Ends t → Derives (.signed e) (p ++ t) (trim t)
  product : 2 ≤ rank → ∀ {t x u}, Ends t → Derives (.factors e x) (trim t) u →
    Derives (.product x) (p ++ t) u
  sum : ∀ {t x u}, Ends t → productSign? (trim t) = none → Derives (.summands e x) (trim t) u →
    Derives (.sum x) (p ++ t) u

namespace Spells

variable {a b : Nat} {l r : Expr} {p q : List Char}

/-- What spells an expression begins with no blank. -/
theorem trim_append (h : Spells a e p) (t : List Char) : trim (p ++ t) = p ++ t := by
  obtain ⟨c, s, rfl, hc, -⟩ := h.head
  exact trim_cons_of_not_isBlank (not_isBlank_of_opensOperand hc)

/-- A sum is spelled by its first operand and what it goes on with. -/
theorem of_sum (hl : Spells a l p) (h : ∀ {t x u}, Ends t → productSign? (trim t) = none →
    Derives (.summands e x) (trim t) u → Derives (.sum x) (p ++ q ++ t) u) :
    Spells 1 e (p ++ q) where
  head := by
    obtain ⟨c, s, rfl, hc, -⟩ := hl.head
    exact ⟨c, s ++ q, rfl, hc, by omega⟩
  signed := by omega
  product := by omega
  sum := h

/-- A product is spelled by its first operand and what it goes on with. -/
theorem of_product (hl : Spells a l p) (h : ∀ {t x u}, Ends t → Derives (.factors e x) (trim t) u →
    Derives (.product x) (p ++ q ++ t) u) : Spells 2 e (p ++ q) where
  head := by
    obtain ⟨c, s, rfl, hc, -⟩ := hl.head
    exact ⟨c, s ++ q, rfl, hc, by omega⟩
  signed := by omega
  product := fun _ => h
  sum ht hend he := .sum (h ht (.productEnd hend)) he

/-- An operand is spelled at every rank. -/
theorem of_signed (hc : opensOperand c = true) (hd : e.isUnsigned = false → isDigit c = false)
    (h : ∀ {t}, Ends t → Derives (.signed e) (c :: (s ++ t)) (trim t)) : Spells a e (c :: s) where
  head := ⟨c, s, rfl, hc, fun _ => hd⟩
  signed := fun _ => h
  product := fun _ _ _ _ ht he => .product (h ht) he
  sum ht hend he := .sum (.product (h ht) (.productEnd hend)) he

/-- An operand without signs. -/
theorem of_operand (hc : opensOperand c = true) (hm : c ≠ '-')
    (hd : e.isUnsigned = false → isDigit c = false)
    (h : ∀ {t}, Ends t → Derives (.operand e) (c :: (s ++ t)) (trim t)) : Spells a e (c :: s) := by
  refine of_signed hc hd ?_
  intro t ht
  refine .unsigned ?_ (h ht)
  rw [sumSign?_of_ne (ne_of_opensOperand hc (by decide)) hm]
  exact nofun

/-- What spells at a rank spells at every lower one. -/
theorem mono (h : Spells a e p) (hb : b ≤ a) : Spells b e p where
  head := by
    obtain ⟨c, s, hp, hc, hd⟩ := h.head
    exact ⟨c, s, hp, hc, fun hr => hd (hr.trans hb)⟩
  signed hr := h.signed (hr.trans hb)
  product hr := h.product (hr.trans hb)
  sum := h.sum

/-- The text is read to its end in front of what goes on with neither a product nor a sum. -/
theorem derives (h : Spells a e p) (ht : Ends t) (hp : productSign? (trim t) = none)
    (hs : sumSign? (trim t) = none) : Derives (.sum e) (p ++ t) (trim t) :=
  h.sum ht hp (.sumEnd hs)

/-- A group is spelled at every rank. -/
theorem group (h : Spells a e p) : Spells b e ('(' :: (p ++ [')'])) := by
  refine of_operand (by decide) (by decide) (fun _ => by decide) ?_
  intro t _
  refine .group ?_
  rw [List.append_assoc, h.trim_append]
  exact h.derives (ends_cons (by decide)) rfl rfl

/-- Parentheses that are demanded let a lower rank stand. -/
theorem parensIf {demanded : Bool} (h : Spells a e p) (hb : demanded = false → b ≤ a) :
    Spells b e (parensIf demanded p) := by
  cases demanded with
  | true => exact h.group
  | false => exact h.mono (hb rfl)

/-! ### Operations -/

/-- The sign of a product with what may stand behind it. -/
theorem productSign?_symbol {op : ArithOp} (hop : op.precedence = 2) : ∃ c, op.symbol.toList = [c] ∧
    endsOperand c = true ∧ ∀ u, productSign? (c :: u) = some op := by
  cases op with
  | add | subtract => cases hop
  | multiply => exact ⟨'*', rfl, by decide, fun _ => rfl⟩
  | divide => exact ⟨'/', rfl, by decide, fun _ => rfl⟩
  | modulo => exact ⟨'%', rfl, by decide, fun _ => rfl⟩

/-- The sign of a sum with what may stand behind it: an arrow is none. -/
theorem sumSign?_symbol {op : ArithOp} (hop : op.precedence = 1) : ∃ c, op.symbol.toList = [c] ∧
    endsOperand c = true ∧ (∀ u, productSign? (c :: u) = none) ∧
    ∀ u, (∀ v, u ≠ '>' :: v) → sumSign? (c :: u) = some op := by
  cases op with
  | multiply | divide | modulo => cases hop
  | add => exact ⟨'+', rfl, by decide, fun _ => rfl, fun _ _ => rfl⟩
  | subtract => exact ⟨'-', rfl, by decide, fun _ => rfl, fun _ hu => sumSign?_minus hu⟩

/-- Behind blanks, an operand opens with no character but those that it may open with. -/
theorem gap_append_ne {d : Char} (hd : opensOperand d = false) (hb : isBlank d = false)
    (h : Spells a e p) (y : Layout) (t v : List Char) : y.gap ++ (p ++ t) ≠ d :: v := by
  intro hv
  obtain ⟨c, s, rfl, hc, -⟩ := h.head
  have htrim := trim_gap y (c :: s ++ t)
  rw [hv, trim_cons_of_not_isBlank hb, h.trim_append, List.cons_append, List.cons.injEq] at htrim
  exact ne_of_opensOperand hc hd htrim.1.symm

/-- Products group to the left, so the right operand has to be a signed one. -/
theorem product_binary {op : ArithOp} (hop : op.precedence = 2) (hl : Spells 2 l p)
    (hr : Spells 3 r q) (y : Layout) :
    Spells 2 (.binary op l r) (p ++ (y.gap ++ op.symbol.toList ++ y.gap ++ q)) := by
  obtain ⟨c, hsymbol, hc, hsign⟩ := productSign?_symbol hop
  refine of_product hl ?_
  intro t x u ht he
  simp only [hsymbol, List.append_assoc, List.cons_append, List.nil_append]
  refine hl.product le_rfl ((ends_cons hc).gap y) ?_
  rw [trim_gap, trim_cons_of_not_isBlank (not_isBlank_of_endsOperand hc)]
  refine .productMore (hsign _) ?_ he
  rw [trim_gap, hr.trim_append]
  exact hr.signed le_rfl ht

/-- Sums group to the left, so the right operand has to be a product. -/
theorem sum_binary {op : ArithOp} (hop : op.precedence = 1) (hl : Spells 1 l p) (hr : Spells 2 r q)
    (y : Layout) : Spells 1 (.binary op l r) (p ++ (y.gap ++ op.symbol.toList ++ y.gap ++ q)) := by
  obtain ⟨c, hsymbol, hc, hproduct, hsign⟩ := sumSign?_symbol hop
  refine of_sum hl ?_
  intro t x u ht hend he
  simp only [hsymbol, List.append_assoc, List.cons_append, List.nil_append]
  have htrim : trim (y.gap ++ c :: (y.gap ++ (q ++ t))) = c :: (y.gap ++ (q ++ t)) := by
    rw [trim_gap, trim_cons_of_not_isBlank (not_isBlank_of_endsOperand hc)]
  refine hl.sum ((ends_cons hc).gap y) ?_ ?_
  · rw [htrim]
    exact hproduct _
  · rw [htrim]
    refine .sumMore (hsign _ (hr.gap_append_ne (by decide) (by decide) y t)) ?_ he
    rw [trim_gap, hr.trim_append]
    exact hr.product le_rfl ht (.productEnd hend)

/-- A binary expression is spelled by its operands at their ranks. -/
theorem binary {op : ArithOp} (hl : Spells op.precedence l p) (hr : Spells (op.precedence + 1) r q)
    (y : Layout) :
    Spells op.precedence (.binary op l r) (p ++ (y.gap ++ op.symbol.toList ++ y.gap ++ q)) := by
  have hop : op.precedence = 1 ∨ op.precedence = 2 := by
    cases op <;> simp [ArithOp.precedence]
  rcases hop with hop | hop
  · rw [hop] at hl hr ⊢
    exact sum_binary hop hl hr y
  · rw [hop] at hl hr ⊢
    exact product_binary hop hl hr y

/-- A negation is spelled by its operand, unless that begins with a digit. -/
theorem negate (h : Spells 3 e p) (hp : ∀ c s, p = c :: s → isDigit c = false) :
    Spells 3 (.negate e) ('-' :: p) := by
  refine of_signed (by decide) (fun _ => by decide) ?_
  intro t ht
  obtain ⟨c, s, rfl, hc, -⟩ := h.head
  have hsign : sumSign? ('-' :: (c :: s ++ t)) = some .subtract := by
    refine sumSign?_minus ?_
    rintro v hv
    rw [List.cons_append, List.cons.injEq] at hv
    exact ne_of_opensOperand hc (by decide) hv.1
  exact .negate hsign (h.trim_append t) (hp c s rfl) (h.signed le_rfl ht)

/-! ### Constants -/

/-- The digits of a finite number are read back. -/
theorem decimal_unsignedText {x : Number} (hx : x.isFinite = true) (ht : Ends t) :
    (decimal (x.unsignedText ++ t)).Gives ⟨false, x.place⟩ t := by
  have hspelled : ∀ d ∈ x.unsignedText, isNumberChar d = true := by
    obtain ⟨-, -, -, -, h⟩ := Number.positional_spelling (Number.shortest .up x.place)
    rwa [Number.unsignedText, if_pos hx]
  obtain ⟨h1, h2⟩ := span_append hspelled fun c hc => (ht.head c hc).2
  refine Reader.gives_refine.mpr ⟨_, Reader.gives_takeWhile.mpr ⟨h1, h2⟩, ?_⟩
  rw [Number.numberOf?_unsignedText hx]

/-- The text of a finite number spells it. -/
theorem number {x : Number} (hx : x.isFinite = true) : Spells 3 (.number x) x.text := by
  obtain ⟨d, u, hdu, hd⟩ : ∃ d u, x.unsignedText = d :: u ∧ isDigit d = true := by
    have := Number.head?_unsignedText hx
    cases hu : x.unsignedText with
    | nil => simp [hu] at this
    | cons d u => exact ⟨d, u, rfl, by simpa [hu] using this⟩
  have hopens : opensOperand d = true := by simp [opensOperand, hd]
  rw [Number.text_eq]
  split
  · next hneg =>
    refine of_signed (by decide) (fun _ => by decide) ?_
    intro t ht
    have hread := decimal_unsignedText hx ht
    have hx' : x = Number.neg ⟨false, x.place⟩ := by
      rw [Number.neg, Bool.not_false, ← hneg]
    have hsign : sumSign? ('-' :: (x.unsignedText ++ t)) = some .subtract := by
      refine sumSign?_minus ?_
      rintro v hv
      rw [hdu, List.cons_append, List.cons.injEq] at hv
      exact ne_of_opensOperand hopens (by decide) hv.1
    rw [hdu, List.cons_append] at hread hsign ⊢
    rw [hx']
    exact .negative hsign (trim_cons_of_not_isBlank (not_isBlank_of_opensOperand hopens)) hd hread
  · next hneg =>
    rw [hdu]
    refine of_operand hopens ?_ ?_ ?_
    · rintro rfl
      exact absurd hd (by decide)
    · intro h
      exact absurd h (by simp [Expr.number, isUnsigned, hneg])
    · intro t ht
      have hread := decimal_unsignedText hx ht
      rw [hdu, List.cons_append] at hread
      have hx' : x = ⟨false, x.place⟩ := by
        rw [← Bool.eq_false_iff.mpr hneg]
      rw [hx']
      exact .number hd hread

/-- A text with its escapes is read up to the quote behind it. -/
theorem literalAhead?_escape {q : Char} (hq : Token.isQuote q = true) (v t : List Char) :
    literalAhead? q (v.flatMap (Layout.escape q) ++ q :: t) = some (v, t) := by
  have hslash : q ≠ '\\' := by
    rintro rfl
    exact absurd hq (by decide)
  have hunescape : ∀ c, c = q ∨ c = '\\' → unescape c = c := by
    rintro c hc
    simp only [Token.isQuote, Bool.or_eq_true, beq_iff_eq] at hq
    rcases hc with rfl | rfl
    · rcases hq with rfl | rfl <;> decide
    · decide
  -- an escape gives back the character behind the backslash, since it is a quote or a backslash
  induction v with
  | nil =>
    rw [List.flatMap_nil, List.nil_append, literalAhead?_cons hslash, if_pos rfl]
  | cons c v ih =>
    rw [List.flatMap_cons, List.append_assoc, Layout.escape]
    by_cases hc : c = q ∨ c = '\\'
    · rw [if_pos hc, List.cons_append, List.cons_append, List.nil_append,
        Expr.literalAhead?_escape, ih, hunescape c hc]
      rfl
    · rw [not_or] at hc
      rw [if_neg (not_or.mpr hc), List.cons_append, List.nil_append, literalAhead?_cons hc.2,
        if_neg hc.1, ih]
      rfl

/-- A text in quotes spells it, whatever it holds. -/
theorem text (y : Layout) (s : String) : Spells 3 (.text s) (y.text s) := by
  have hq := y.isQuote s
  have hopens : opensOperand (y.quote s) = true := by simp [opensOperand, hq]
  have hother : y.quote s ≠ '-' ∧ isDigit (y.quote s) = false := by
    generalize y.quote s = c at hq ⊢
    simp only [Token.isQuote, Bool.or_eq_true, beq_iff_eq] at hq
    rcases hq with rfl | rfl <;> decide
  refine of_operand hopens hother.1 (fun _ => hother.2) ?_
  intro t _
  have hread := literalAhead?_escape hq s.toList t
  obtain ⟨x, hx, hvalue⟩ := Option.map_eq_some_iff.mp hread
  rw [Prod.mk.injEq] at hvalue
  have hd := Derives.text hq hx
  rw [hvalue.1, hvalue.2, String.ofList_toList] at hd
  rwa [List.append_assoc, List.singleton_append]

/-- A word that a constant has for its name. -/
theorem constant {v : Literal} (hn : isIdentifier n = true) (hv : constant? n.toList = some v) :
    Spells 3 (.literal v) n.toList := by
  obtain ⟨c, s, hcs, hc, hs⟩ := isIdentifier_iff.mp hn
  rw [List.forall_mem_cons] at hs
  rw [hcs] at hv ⊢
  refine of_operand (by simp [opensOperand, hc]) ?_ (fun _ => (not_other_of_isNameStart hc).2.2) ?_
  · rintro rfl
    exact absurd hc (by decide)
  · intro t ht
    obtain ⟨h1, h2⟩ := span_append hs.2 fun c hc => (ht.head c hc).1
    have hd := Derives.constant (t := s ++ t) (v := v) hc (by rwa [h1])
    rwa [h2] at hd

/-! ### Names -/

/-- The spelling of a free name, with its first character taken apart. -/
theorem exists_of_isFree (h : IsFree n) : ∃ c s, n.toList = c :: s ∧ isNameStart c = true ∧
    opensOperand c = true ∧ c ≠ '-' ∧ isDigit c = false ∧ (∀ d ∈ s, isNameChar d = true) ∧
    constant? (c :: s) = none := by
  obtain ⟨c, s, hn, hc, hs⟩ := isIdentifier_iff.mp h.1
  rw [List.forall_mem_cons] at hs
  refine ⟨c, s, hn, hc, by simp [opensOperand, hc], ?_, (not_other_of_isNameStart hc).2.2, hs.2, ?_⟩
  · rintro rfl
    exact absurd hc (by decide)
  · rw [← hn]
    exact h.2

/-- The name of a field spells it, unless it is a constant. -/
theorem plain (h : IsFree n) : Spells 3 (.plain n) n.toList := by
  obtain ⟨c, s, hn, hc, hopens, hm, hdigit, hs, hv⟩ := exists_of_isFree h
  rw [hn]
  refine of_operand hopens hm (fun _ => hdigit) ?_
  intro t ht
  obtain ⟨h1, h2⟩ := span_append hs fun c hc => (ht.head c hc).1
  have hd := Derives.plain (t := s ++ t) hc (by rwa [h1]) (by rw [h2]; exact ht.name)
  rwa [h1, h2, ← hn, String.ofList_toList] at hd

theorem qualified {m : String} (h : IsFree n) (hm : isIdentifier m = true) :
    Spells 3 (.field (some n) m) (n.toList ++ '.' :: m.toList) := by
  obtain ⟨c, s, hn, hc, hopens, hminus, hdigit, hs, hv⟩ := exists_of_isFree h
  obtain ⟨d, u, hmd, hd, hu⟩ := isIdentifier_iff.mp hm
  rw [List.forall_mem_cons] at hu
  rw [hn, hmd, List.cons_append]
  refine of_operand hopens hminus (fun _ => hdigit) ?_
  intro t ht
  rw [List.append_assoc, List.cons_append, List.cons_append]
  obtain ⟨h1, h2⟩ := span_append (t := '.' :: d :: (u ++ t)) hs (by rintro _ ⟨⟩; decide)
  obtain ⟨h3, h4⟩ := span_append hu.2 fun c hc => (ht.head c hc).1
  have hderives := Derives.qualified (t := s ++ '.' :: d :: (u ++ t)) (d := d) (u := u ++ t) hc
    (by rwa [h1]) (by rw [h2]; exact trim_cons_of_not_isBlank (by decide)) hd
  rwa [h1, h3, h4, ← hn, ← hmd, String.ofList_toList, String.ofList_toList] at hderives

/-- A call, whatever its arguments are. -/
theorem call (h : IsFree n) {p : List Char}
    (hp : ∀ t, Derives (.arguments es) (trim (p ++ ')' :: t)) (')' :: t)) :
    Spells 3 (.call n es) (n.toList ++ '(' :: (p ++ [')'])) := by
  obtain ⟨c, s, hn, hc, hopens, hminus, hdigit, hs, hv⟩ := exists_of_isFree h
  rw [hn, List.cons_append]
  refine of_operand hopens hminus (fun _ => hdigit) ?_
  intro t ht
  rw [List.append_assoc, List.cons_append, List.append_assoc, List.singleton_append]
  obtain ⟨h1, h2⟩ := span_append (t := '(' :: (p ++ ')' :: t)) hs (by rintro _ ⟨⟩; decide)
  have hderives := Derives.call (t := s ++ '(' :: (p ++ ')' :: t)) (u := p ++ ')' :: t) hc
    (by rwa [h1]) (by rw [h2]; exact trim_cons_of_not_isBlank (by decide)) (hp t)
  rwa [h1, ← hn, String.ofList_toList] at hderives

end Spells

/-! ## Everything that is printed is read back -/

variable {y : Layout}

/-- Behind an argument there is a comma or the parenthesis that closes the call. -/
theorem ends_printMore (es : List Expr) (t : List Char) : ∃ c u,
    printMore y es ++ ')' :: t = c :: u ∧ Ends (c :: u) ∧ isBlank c = false ∧
    productSign? (c :: u) = none ∧ sumSign? (c :: u) = none := by
  cases es with
  | nil =>
    exact ⟨')', t, by rw [printMore, List.nil_append], ends_cons (by decide), by decide, rfl, rfl⟩
  | cons e es =>
    exact ⟨',', _, by rw [printMore, List.cons_append], ends_cons (by decide), by decide, rfl, rfl⟩

/-- An argument is read up to what follows it. -/
theorem Spells.derives_argument {a : Nat} {p : List Char} (h : Spells a e p) (es : List Expr)
    (t : List Char) : Derives (.sum e) (p ++ (printMore y es ++ ')' :: t))
      (printMore y es ++ ')' :: t) := by
  obtain ⟨c, u, hcu, hends, hb, hproduct, hsum⟩ := ends_printMore (y := y) es t
  have htrim : trim (c :: u) = c :: u := trim_cons_of_not_isBlank hb
  rw [hcu]
  have hd := h.derives hends (by rwa [htrim]) (by rwa [htrim])
  rwa [htrim] at hd

/-- Further arguments are derived from their prints. -/
theorem derives_printMore (hes : ∀ e ∈ es, Spells e.rank e (e.print y)) (t : List Char) :
    Derives (.moreArguments es) (printMore y es ++ ')' :: t) (')' :: t) := by
  induction es with
  | nil =>
    rw [printMore, List.nil_append]
    exact .argumentsEnd nofun
  | cons e es ih =>
    rw [List.forall_mem_cons] at hes
    rw [printMore, List.cons_append, List.append_assoc, List.append_assoc]
    refine .argumentsMore ?_ (ih hes.2)
    rw [trim_gap, hes.1.trim_append]
    exact hes.1.derives_argument es t

/-- Arguments are derived from their prints. -/
theorem derives_printAll (hes : ∀ e ∈ es, Spells e.rank e (e.print y)) (t : List Char) :
    Derives (.arguments es) (trim (printAll y es ++ ')' :: t)) (')' :: t) := by
  cases es with
  | nil =>
    rw [printAll, List.nil_append, trim_cons_of_not_isBlank (by decide)]
    exact .noArguments
  | cons e es =>
    rw [List.forall_mem_cons] at hes
    obtain ⟨c, s, hcs, hc, -⟩ := hes.1.head
    rw [printAll, List.append_assoc, hes.1.trim_append]
    refine .arguments ?_ ?_ (hes.1.derives_argument es t) (derives_printMore hes.2 t)
    all_goals
      intro u hu
      rw [hcs, List.cons_append, List.cons.injEq] at hu
      exact ne_of_opensOperand hc (by decide) hu.1

/-- Every expression that statements can write is printed as a text that is read as the
expression. -/
theorem IsPrintable.spells (he : IsPrintable e) (y : Layout) : Spells e.rank e (e.print y) := by
  induction he with
  | number hx =>
    rw [Expr.number, print]
    exact .number hx
  | text =>
    rw [Expr.text, print]
    exact .text y _
  | @boolean b =>
    cases b with
    | true => exact .constant (n := "true") (by decide) (by decide)
    | false => exact .constant (n := "false") (by decide) (by decide)
  | null => exact .constant (n := "null") (by decide) (by decide)
  | plain hn =>
    rw [Expr.plain, print]
    exact .plain hn
  | qualified hq hn =>
    rw [print]
    exact .qualified hq hn
  | call hn _ ih =>
    rw [print]
    exact .call hn (derives_printAll ih)
  | callStar hn =>
    -- a star is no expression, the grammar has a rule of its own for it
    rw [print, printAll, printMore, print, List.append_nil]
    refine .call hn fun t => ?_
    exact .starArgument
  | binary hl hr ihl ihr =>
    rw [print]
    refine (ihl.parensIf fun h => ?_).binary (ihr.parensIf fun h => ?_) y
    · simpa using h
    · simpa [Nat.succ_le_iff] using h
  | @negate e he ih =>
    rw [print]
    have hrank : (e.rank < 3 || e.isUnsigned) = false → 3 ≤ e.rank ∧ e.isUnsigned = false := by
      simp
    refine (ih.parensIf fun h => (hrank h).1).negate ?_
    -- behind the minus there is no digit: it would make the minus a part of the number
    intro c s hcs
    cases hb : (e.rank < 3 || e.isUnsigned) with
    | true =>
      rw [hb] at hcs
      cases hcs
      decide
    | false =>
      obtain ⟨d, u, hdu, -, hd⟩ := ih.head
      rw [hb, parensIf, if_neg Bool.false_ne_true, hdu] at hcs
      cases hcs
      exact hd (hrank hb).1 (hrank hb).2

/-- **Reading undoes printing.** Whatever the blanks and the quotes, the text of an expression that
statements can write is read to its end as this expression. -/
theorem read_print (he : e.IsPrintable) (y : Layout) : (read (e.print y)).Gives e [] := by
  have hd := (he.spells y).derives ends_nil rfl rfl
  have htrim := (he.spells y).trim_append []
  rw [List.append_nil] at hd htrim
  rw [gives_read_iff, htrim]
  exact hd

/-- Minus signs of numbers, of negations and of differences, a name behind a point that a constant
has, and a text with quotes of both kinds. -/
theorem read_print_minuses :
    let e : Expr := .binary .subtract
      (.binary .multiply (.negate (.number (.ofNat 2))) (.number (.neg (.ofNat 3))))
      (.binary .subtract (.field (some "t") "null")
        (.call "f" [.text "'\"\\", .negate (.negate (.plain "x")), .call "count" [.star]]))
    String.ofList (e.print .tight) =
        "-(2)*-3-(t.null-f('\\'\"\\\\',--x,count(*)))" ∧
      e.IsPrintable ∧ (read (e.print .tight)).Gives e [] := by
  intro e
  have hname : ∀ n ∈ ["t", "f", "x", "count"], IsFree n := by decide +kernel
  have hargs : ∀ e ∈ [Expr.text "'\"\\", .negate (.negate (.plain "x")), .call "count" [.star]],
      e.IsPrintable := by
    simp only [List.forall_mem_cons]
    exact ⟨.text, .negate (.negate (.plain (hname "x" (by decide)))),
      .callStar (hname "count" (by decide)), nofun⟩
  have htwo : (Number.ofNat 2).isFinite = true := by decide +kernel
  have hthree : (Number.ofNat 3).neg.isFinite = true := by decide +kernel
  have hnull : (Expr.field (some "t") "null").IsPrintable :=
    .qualified (hname "t" (by decide)) (by decide)
  have he : e.IsPrintable :=
    .binary (.binary (.negate (.number htwo)) (.number hthree))
      (.binary hnull (.call (hname "f" (by decide)) hargs))
  exact ⟨by decide +kernel, he, read_print he .tight⟩

end Expr

end DataPhrase
