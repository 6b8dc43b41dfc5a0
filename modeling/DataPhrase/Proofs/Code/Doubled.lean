/-
# Minus signs in a row

A query has minus signs from subtractions, from negations and in front of negative numbers, and
texts are put together with no regard to them. A subtraction has a blank on either side and keeps
its sign apart; a negation does not, and puts its sign in front of whatever its operand opens with.
No other place of a query can have two minus signs in a row (`prints_text`).
-/
import DataPhrase.Code.Sql
import DataPhrase.Proofs.Code.Comments
import DataPhrase.Proofs.Gaps.Text
import DataPhrase.Proofs.Number.ReadBack
import DataPhrase.Proofs.Settled
import DataPhrase.Proofs.Statement.Spelling

namespace DataPhrase

open Code Text

/-! ## Doubled signs -/

namespace Code

/-- The operand of a negation opens with a minus sign of its own. An operation does not: it is put
in parentheses there. -/
def Term.opensMinus : Term → Bool
  | .literal (.number x) => x.negative
  | .negate _ => true
  | _ => false

mutual

/-- Somewhere in the term a negation puts its sign in front of another minus sign. Of the arguments
of a template only those count that it has a place for. -/
def Term.doublesMinus : Term → Bool
  | .literal _ | .column _ _ | .written _ | .star | .countRows => false
  | .call _ args => (Term.doublings args).any id
  | .template t args => t.holes.any fun i => (Term.doublings args).getD i false
  | .aggregate _ e | .group e => e.doublesMinus
  | .percentile t e _ => t.holes.any fun i => [e.doublesMinus].getD i false
  | .binary _ l r => l.doublesMinus || r.doublesMinus
  | .negate e => e.opensMinus || e.doublesMinus

/-- Which of the terms double a minus sign. -/
def Term.doublings : List Term → List Bool
  | [] => []
  | e :: r => e.doublesMinus :: Term.doublings r

end

mutual

/-- Somewhere in the condition a minus sign is doubled. -/
def Cond.doublesMinus : Cond → Bool
  | .isNull _ e | .holds e => e.doublesMinus
  | .compare _ l r => l.doublesMinus || r.doublesMinus
  | .logical _ cs => Cond.anyDoublesMinus cs
  | .not c => c.doublesMinus

/-- Somewhere in the conditions a minus sign is doubled. -/
def Cond.anyDoublesMinus : List Cond → Bool
  | [] => false
  | c :: r => c.doublesMinus || Cond.anyDoublesMinus r

end

/-- The marks of doubled signs, term by term. -/
theorem Term.doublings_eq_map (es : List Term) :
    Term.doublings es = es.map Term.doublesMinus := by
  induction es with
  | nil => rfl
  | cons e es ih => rw [Term.doublings, ih, List.map_cons]

end Code

/-! ## Templates -/

/-- Where the pieces of a template lead from a quote, or from outside of quotes. They lead nowhere
if a sign that could open a comment stands outside of quotes, or a place inside of them. -/
def Piece.leads : Option Char → List Piece → Option (Option Char)
  | u, [] => some u
  | none, .char c :: r =>
    if isQuoteMark c then leads (some c) r else if Sql.isHarmless c then leads none r else none
  | none, .hole _ :: r => leads none r
  | some q, .char c :: r => leads (if c = q then none else some q) r
  | some _, .hole _ :: _ => none

/-- The template brings no sign with it that could open a comment, closes its quotes, and does not
open with a place. -/
def Template.isQuiet (t : Template) : Bool :=
  t.pieces.head?.any (fun p => p.hole?.isNone) && Piece.leads none t.pieces == some none

namespace Sql

/-- A character of a name doubles no sign. -/
theorem isHarmless_of_isNameChar {c : Char} (h : isNameChar c = true) : isHarmless c = true := by
  have hne {d : Char} (hd : isNameChar d = false) : c ≠ d := by
    rintro rfl
    rw [h] at hd
    cases hd
  have hquote : isQuoteMark c = false := by
    simp [isQuoteMark, hne (d := '\'') (by decide), hne (d := '"') (by decide)]
  rw [isHarmless, hquote]
  simp [hne (d := '-') (by decide), hne (d := '/') (by decide)]

/-- A character of a name opens nothing. -/
theorem isHarmless_of_isSpelled {n : String} (h : IsSpelled n) {c : Char} (hc : c ∈ n.toList) :
    isHarmless c = true := by
  rcases h c hc with hc | rfl
  · exact isHarmless_of_isNameChar hc
  · decide

/-! ### Filled templates -/

section Leads

variable {u v : Option Char} {ps : List Piece} {args : Nat → String} {D : Nat → Prop}

/-- A quote is closed by itself, and everything else in it goes on with it. -/
theorem scans_quoted {q c : Char} (hq : isQuoteMark q = true) :
    Scans (some q) [c] (if c = q then none else some q) False := by
  split
  · next h =>
    subst h
    exact .closing hq
  · next h => exact .inside h

/-- A filled template leads where its pieces do, and has two minus signs in a row where one of the
texts that it is filled with has. -/
theorem Scans.of_leads (hu : ∀ q ∈ u, isQuoteMark q = true)
    (hargs : ∀ i ∈ ps.filterMap Piece.hole?, Prints (args i) (D i))
    (h : Piece.leads u ps = some v) :
    Scans u (ps.flatMap fun
      | .char c => [c]
      | .hole ds => (args (Piece.index ds)).toList) v (∃ i ∈ ps.filterMap Piece.hole?, D i) := by
  -- Along the pieces, with the quote in which each of them begins.
  induction ps generalizing u with
  | nil =>
    cases h
    exact (Scans.nil _).congr (by simp)
  | cons p r ih =>
    cases p with
    | char c =>
      -- A character of the template itself adds no sign, so only where it leads matters.
      have hnext {u' : Option Char} (hu' : ∀ q ∈ u', isQuoteMark q = true)
          (hr : Piece.leads u' r = some v) (hc : Scans u [c] u' False) :=
        (hc.append (ih hu' hargs hr)).congr (by rw [false_or])
      have hnone : ∀ q ∈ (none : Option Char), isQuoteMark q = true :=
        fun q hq => absurd hq (Option.not_mem_none q)
      cases u with
      | none =>
        rw [Piece.leads] at h
        split at h
        · next hq => exact hnext (by rintro _ ⟨⟩; exact hq) h (.opening hq)
        · split at h
          · next hc =>
            simp only [isHarmless, Bool.and_eq_true, Bool.not_eq_true', bne_iff_ne] at hc
            exact hnext hnone h (.char hc.1.1 hc.1.2 hc.2)
          · cases h
      | some q =>
        have hq := hu q rfl
        refine hnext ?_ h (scans_quoted hq)
        split
        · exact hnone
        · exact hu
    | hole ds =>
      cases u with
      | none =>
        have hcons : (Piece.hole ds :: r).filterMap Piece.hole? =
            Piece.index ds :: r.filterMap Piece.hole? := rfl
        rw [hcons, List.forall_mem_cons] at hargs
        rw [hcons]
        exact (Scans.append hargs.1 (ih hu hargs.2 h)).congr (by simp)
      | some q => cases h

/-- A template doubles a sign only where an argument of it does. -/
theorem prints_fill {t : Template} (ht : t.isQuiet = true) {ss : List String} {ds : List Bool}
    (h : ∀ i, Prints (ss.getD i "") (ds.getD i false = true)) :
    Prints (t.fill ss) ((t.holes.any fun i => ds.getD i false) = true) := by
  have hnone : ∀ q ∈ (none : Option Char), isQuoteMark q = true :=
    fun q hq => absurd hq (Option.not_mem_none q)
  rw [Template.isQuiet, Bool.and_eq_true, beq_iff_eq] at ht
  have htext : (t.fill ss).toList = t.pieces.flatMap fun
      | .char c => [c]
      | .hole ds => (ss.getD (Piece.index ds) "").toList := by
    rw [Template.fill, String.toList_join, List.flatMap_map]
    refine List.flatMap_congr fun p _ => ?_
    cases p with
    | char c => exact String.toList_singleton c
    | hole ds => rfl
  rw [Prints, htext]
  exact (Scans.of_leads hnone (fun i _ => h i) ht.2).congr (by rw [List.any_eq_true]; rfl)

end Leads

/-! ## Names and literals -/

/-- A name doubles no sign. -/
theorem prints_spelled {n : String} (h : IsSpelled n) : Prints n False :=
  .of_harmless (List.all_eq_true.mpr fun _ hc => isHarmless_of_isSpelled h hc)

/-- A name may be put in quotes, and brings none with it. -/
theorem prints_ident {n : String} (h : IsSpelled n) : Prints (ident n) False := by
  rw [ident]
  split
  · have hquote : ∀ c ∈ n.toList, c ≠ '"' := by
      rintro c hc rfl
      exact absurd (isHarmless_of_isSpelled h hc) (by decide)
    rw [Prints, String.toList_append, String.toList_append]
    exact Scans.enclosed (by decide) hquote
  · exact prints_spelled h

/-- A name is put together again from its parts. -/
theorem intercalate_nameParts (n : String) : ".".intercalate (nameParts n) = n := by
  apply String.toList_inj.mp
  rw [String.toList_intercalate, nameParts, List.map_map]
  have hid : String.toList ∘ String.ofList = id := funext fun _ => String.toList_ofList
  rw [hid, List.map_id]
  exact List.intercalate_splitOn '.'

/-- Every part of a name is one. -/
theorem isSpelled_of_mem_nameParts {n m : String} (h : IsSpelled n) (hm : m ∈ nameParts n) :
    IsSpelled m := by
  intro c hc
  apply h c
  rw [← intercalate_nameParts n]
  exact mem_toList_intercalate hm hc

/-- A qualified name doubles no sign. -/
theorem prints_qualified {n : String} (h : IsSpelled n) : Prints (qualified n) False :=
  (Prints.intercalate (.of_harmless (by decide))
    fun _ hm => prints_ident (isSpelled_of_mem_nameParts h hm)).congr (by simp)

/-- A text in quotes doubles no sign, whatever it holds. -/
theorem prints_quoteText (s : String) : Prints (quoteText s) False := by
  have hinside : Scans (some '\'')
      (s.toList.flatMap fun c => if c = '\'' then ['\'', '\''] else [c]) (some '\'') False := by
    refine .flatMap fun c _ => ?_
    split
    · exact (Scans.append (.closing rfl) (.opening rfl)).congr or_self_iff
    · next h => exact .inside h
  have hall := ((Scans.opening rfl).append hinside).append (Scans.closing rfl)
  simp only [Prints, quoteText, String.toList_append, String.toList_ofList]
  exact hall.congr (by rw [or_false, or_false])

/-! ### Numbers -/

theorem isName_toString (n : Nat) : IsName (toString n) := by
  refine ⟨fun c hc => Or.inl ?_, ?_⟩
  · rw [Nat.toString_eq_repr, Nat.toList_repr] at hc
    exact isNameChar_of_isDigit (Nat.isDigit_of_mem_toDigits (by decide) (by decide) hc)
  · rw [Nat.toString_eq_repr]
    exact Nat.repr_ne_empty

theorem isName_unsignedText (x : Number) : IsName (String.ofList x.unsignedText) := by
  rw [Number.unsignedText]
  split
  · obtain ⟨c, r, hcr, -, hall⟩ := Number.positional_spelling (Number.shortest .up x.place)
    refine ⟨fun d hd => ?_, fun he => ?_⟩
    · rw [String.toList_ofList] at hd
      have hd' := hall d hd
      rw [Expr.isNumberChar, Bool.or_eq_true, beq_iff_eq] at hd'
      exact hd'.imp_left isNameChar_of_isDigit
    · rw [String.ofList_eq_empty_iff, hcr] at he
      cases he
  · exact isName_ofList (by decide) (List.all_eq_true.mp (by decide))

/-! ## First characters -/

/-- The text is not empty, and it opens with a minus sign exactly under the given condition. -/
def Opens (s : String) (minus : Prop) : Prop :=
  ∃ c r, s.toList = c :: r ∧ (c = '-' ↔ minus)

namespace Opens

variable {s : String} {m d : Prop}

/-- How a text opens does not depend on what follows. -/
theorem append (h : Opens s m) (t : String) : Opens (s ++ t) m := by
  obtain ⟨c, r, hs, hc⟩ := h
  refine ⟨c, r ++ t.toList, ?_, hc⟩
  rw [String.toList_append, hs, List.cons_append]

/-- A text without minus signs opens with none. -/
theorem of_forall (hne : s ≠ "") (h : ∀ c ∈ s.toList, c ≠ '-') : Opens s False := by
  obtain ⟨c, r, hcr⟩ := List.exists_cons_of_ne_nil (mt String.toList_eq_nil_iff.mp hne)
  refine ⟨c, r, hcr, iff_false_intro (h c ?_)⟩
  rw [hcr]
  exact List.mem_cons_self

/-- A text without a minus opens with none. -/
theorem of_not_mem (hne : s ≠ "") (h : '-' ∉ s.toList) : Opens s False :=
  .of_forall hne (List.forall_mem_ne'.mpr h)

/-- A minus sign in front of a text. -/
theorem prints_minus (h : Opens s m) (hs : Prints s d) : Prints ("-" ++ s) (m ∨ d) := by
  obtain ⟨c, r, hcr, hc⟩ := h
  rw [Prints, hcr] at hs
  rw [Prints, String.toList_append, hcr]
  exact (Scans.minus hs (List.cons_ne_nil c r)).congr (by simp [hc])

end Opens

/-- A name has no minus sign. -/
theorem ne_minus_of_isSpelled {n : String} (h : IsSpelled n) : ∀ c ∈ n.toList, c ≠ '-' := by
  rintro c hc rfl
  exact absurd (isHarmless_of_isSpelled h hc) (by decide)

/-- A name opens with no minus. -/
theorem opens_name {n : String} (h : IsName n) : Opens n False :=
  .of_forall h.ne_empty (ne_minus_of_isSpelled h.spelled)

/-- An emitted name has no minus in it. -/
theorem ne_minus_of_mem_ident {n : String} (h : IsSpelled n) : ∀ c ∈ (ident n).toList, c ≠ '-' := by
  rw [ident]
  split
  · rw [String.toList_append, String.toList_append]
    have hquote : ∀ c ∈ "\"".toList, c ≠ '-' := List.forall_mem_ne'.mpr (by decide)
    exact List.forall_mem_append.mpr
      ⟨List.forall_mem_append.mpr ⟨hquote, ne_minus_of_isSpelled h⟩, hquote⟩
  · exact ne_minus_of_isSpelled h

theorem ident_ne_empty {n : String} (h : n ≠ "") : ident n ≠ "" := by
  rw [ident]
  split
  · intro he
    exact absurd (String.append_eq_empty_iff.mp (String.append_eq_empty_iff.mp he).1).1 (by decide)
  · exact h

/-- An identifier opens with no minus sign. -/
theorem opens_ident {n : String} (h : IsName n) : Opens (ident n) False :=
  .of_forall (ident_ne_empty h.ne_empty) (ne_minus_of_mem_ident h.spelled)

theorem opens_qualified {n : String} (h : IsName n) : Opens (qualified n) False := by
  refine .of_forall ?_ (forall_mem_intercalate (List.forall_mem_ne'.mpr (by decide)) ?_)
  · -- Of two parts or more the point between them stays, and one part alone is the name.
    have hname := intercalate_nameParts n
    rw [qualified]
    match nameParts n, hname with
    | [], hname => exact absurd hname.symm h.ne_empty
    | [m], hname =>
      rw [String.intercalate_singleton] at hname
      rw [List.map_singleton, String.intercalate_singleton, hname]
      exact ident_ne_empty h.ne_empty
    | m :: m' :: l, _ =>
      rw [List.map_cons, String.intercalate_cons_of_ne_nil (by simp)]
      intro he
      have hpoint := (String.append_eq_empty_iff.mp (String.append_eq_empty_iff.mp he).1).2
      exact absurd hpoint (by decide)
  · intro m hm
    obtain ⟨k, hk, rfl⟩ := List.mem_map.mp hm
    exact ne_minus_of_mem_ident (isSpelled_of_mem_nameParts h.spelled hk)

/-- An emitted literal closes its quotes and holds no comment. -/
theorem prints_literal (v : Literal) : Prints (literal v) False := by
  cases v with
  | number x =>
    have hname := isName_unsignedText x
    have htext := prints_spelled hname.spelled
    rw [literal, Number.text_eq]
    split
    · rw [← List.singleton_append, String.ofList_append]
      exact ((opens_name hname).prints_minus htext).congr or_self_iff
    · exact htext
  | text s => exact prints_quoteText s
  | boolean b => cases b <;> exact .of_harmless (by decide)
  | null => exact .of_harmless (by decide)

/-- A literal opens with a minus sign if it is a negative number. -/
theorem opens_literal (v : Literal) : Opens (literal v) ((Term.literal v).opensMinus = true) := by
  have hplain {s : String} (h : Opens s False) : Opens s (false = true) := by
    rwa [Bool.false_eq_true]
  cases v with
  | number x =>
    rw [literal, Number.text_eq, Term.opensMinus]
    split
    · next h =>
      exact ⟨'-', x.unsignedText, String.toList_ofList, by rw [h]; simp⟩
    · next h =>
      rw [Bool.not_eq_true] at h
      obtain ⟨c, r, hcr, hc⟩ := opens_name (isName_unsignedText x)
      exact ⟨c, r, hcr, by rw [hc, h]; simp⟩
  | text s =>
    have hquote : Opens "'" False := .of_not_mem (by decide) (by decide)
    exact hplain ((hquote.append _).append _)
  | boolean b => cases b <;> exact hplain (.of_not_mem (by decide) (by decide))
  | null => exact hplain (.of_not_mem (by decide) (by decide))

/-! ## Terms -/

/-- A text of which it can be computed where it leads. -/
theorem scans_of_leads {u v : Option Char} (hu : ∀ q ∈ u, isQuoteMark q = true) {s : String}
    (h : Piece.leads u (s.toList.map .char) = some v) : Scans u s.toList v False := by
  have hargs : ∀ i ∈ (s.toList.map Piece.char).filterMap Piece.hole?,
      Prints ((fun _ => "") i) ((fun _ => False) i) := fun _ _ => .empty
  have hscans := Scans.of_leads hu hargs h
  rw [List.flatMap_map, List.flatMap_singleton'] at hscans
  exact hscans.congr (by simp)

/-- The text of the term has two minus signs in a row exactly where the term doubles one, and opens
with a minus sign exactly where the term does, unless it is put in parentheses there. -/
structure ShowsSigns (t : Term) : Prop where
  prints : Prints (termText t) (t.doublesMinus = true)
  opens : (∀ op l r, t ≠ .binary op l r) → Opens (termText t) (t.opensMinus = true)

namespace ShowsSigns

variable {t l r : Term} {ts : List Term} {n : String}

/-- A term that does not open with a minus sign. -/
theorem of_opens (ho : t.opensMinus = false) (hopens : Opens (termText t) False)
    (hp : Prints (termText t) (t.doublesMinus = true)) : ShowsSigns t := by
  refine ⟨hp, fun _ => ?_⟩
  rwa [ho, Bool.false_eq_true]

/-- A term that neither opens with a minus sign nor doubles one. -/
theorem of_prints (hd : t.doublesMinus = false) (ho : t.opensMinus = false)
    (hopens : Opens (termText t) False) (hp : Prints (termText t) False) : ShowsSigns t :=
  of_opens ho hopens (hp.congr (by rw [hd, Bool.false_eq_true]))

/-- A literal shows its signs. -/
theorem literal (v : Literal) : ShowsSigns (.literal v) :=
  ⟨(prints_literal v).congr (by rw [Term.doublesMinus, Bool.false_eq_true]),
    fun _ => opens_literal v⟩

/-- A column shows its signs. -/
theorem column {q : Option String} (hq : ∀ s ∈ q, IsName s) (hn : IsName n) :
    ShowsSigns (.column q n) := by
  cases q with
  | none => exact of_prints rfl rfl (opens_ident hn) (prints_ident hn.spelled)
  | some q =>
    have hsource := hq q rfl
    refine of_prints rfl rfl (((opens_qualified hsource).append _).append _) ?_
    exact ((prints_qualified hsource.spelled).between (.of_harmless (by decide))
      (prints_ident hn.spelled)).congr or_self_iff

theorem star : ShowsSigns .star :=
  of_prints rfl rfl (.of_not_mem (by decide) (by decide)) (.of_harmless (by decide))

theorem countRows : ShowsSigns .countRows :=
  of_prints rfl rfl (.of_not_mem (by decide) (by decide)) (.of_harmless (by decide))

/-- The arguments of a call, parted by commas. -/
theorem prints_commas (h : ∀ t ∈ ts, ShowsSigns t) :
    Prints (commas (Term.texts style ts)) ((Term.doublings ts).any id = true) := by
  rw [commas, Term.texts_eq_map, Term.doublings_eq_map]
  have hcomma : Prints ", " False := .of_harmless (by decide)
  have hall := hcomma.intercalate fun t ht => (h t ht).prints
  exact hall.congr (by simp)

/-- Parentheses neither add a doubled sign nor take one away. -/
theorem prints_parens {s : String} {d : Prop} (h : Prints s d) : Prints (parens s) d :=
  .around (.of_harmless (by decide)) h (.of_harmless (by decide))

/-- Behind an opening parenthesis no sign is doubled by what stands before. -/
theorem opens_parens (s : String) : Opens (parens s) False := by
  have hopens : Opens "(" False := .of_not_mem (by decide) (by decide)
  exact (hopens.append s).append ")"

/-- A call shows the signs of its arguments. -/
theorem call (hn : IsName n) (h : ∀ t ∈ ts, ShowsSigns t) : ShowsSigns (.call n ts) :=
  of_opens rfl ((opens_name hn).append _)
    ((prints_spelled hn.spelled).left (prints_parens (prints_commas h)))

/-- An argument that is there shows its signs, one that is missing has none. -/
theorem prints_getD (h : ∀ t ∈ ts, ShowsSigns t) (i : Nat) :
    Prints ((Term.texts style ts).getD i "") ((Term.doublings ts).getD i false = true) := by
  rw [Term.texts_eq_map, Term.doublings_eq_map, List.getD_eq_getElem?_getD,
    List.getD_eq_getElem?_getD, List.getElem?_map, List.getElem?_map]
  cases hi : ts[i]? with
  | none => exact Prints.empty.congr (by simp)
  | some t => exact (h t (List.mem_of_getElem? hi)).prints

/-- A filled template opens with the first character of the template. -/
theorem opens_fill {t : Template} (ht : t.isQuiet = true) (ss : List String) :
    Opens (t.fill ss) False := by
  rw [Template.isQuiet, Bool.and_eq_true, beq_iff_eq] at ht
  rw [Template.fill]
  cases hp : t.pieces with
  | nil =>
    rw [hp] at ht
    cases ht.1
  | cons p r =>
    rw [hp] at ht
    cases p with
    | hole ds => cases ht.1
    | char c =>
      rw [List.map_cons, String.join_cons]
      refine Opens.append ⟨c, [], String.toList_singleton c, iff_false_intro ?_⟩ _
      rintro rfl
      cases ht.2

/-- A template shows the signs of its arguments. -/
theorem template {t : Template} (ht : t.isQuiet = true) (h : ∀ x ∈ ts, ShowsSigns x) :
    ShowsSigns (.template t ts) :=
  of_opens rfl (opens_fill ht _) (prints_fill ht (prints_getD h))

/-- A percentile shows the signs of what it is taken of. -/
theorem percentile {t' : Template} (ht' : t'.isQuiet = true) (h : ShowsSigns t) (x : Number) :
    ShowsSigns (.percentile t' t x) := by
  refine of_opens rfl (opens_fill ht' _) (prints_fill ht' fun i => ?_)
  match i with
  | 0 => exact h.prints
  | 1 => exact (prints_literal (.number x)).congr (by simp)
  | i + 2 => exact Prints.empty.congr (by simp)

/-- Every aggregate is a call, with the fraction of a percentile behind the term. -/
theorem aggregate (f : AggregateFn) (h : ShowsSigns t) : ShowsSigns (.aggregate f t) := by
  have hclose : Prints ")" False := .of_harmless (by decide)
  have hcall {a b : String} (ha : a.toList.all isHarmless = true) (hminus : '-' ∉ a.toList)
      (hne : a ≠ "") (hb : Prints b False) (ht : termText (.aggregate f t) = a ++ termText t ++ b) :
      ShowsSigns (.aggregate f t) := by
    refine of_opens rfl ?_ ?_
    · rw [ht]
      exact ((Opens.of_not_mem hne hminus).append _).append _
    · rw [ht]
      exact .around (.of_harmless ha) h.prints hb
  cases f with
  | percentile x =>
    have hnumber : Prints (String.ofList x.text) False := prints_literal (.number x)
    have hfraction : Prints (", " ++ String.ofList x.text ++ ")") False :=
      .around (.of_harmless (by decide)) hnumber hclose
    have htext : termText (.aggregate (.percentile x) t) =
        "PERCENTILE(" ++ termText t ++ ", " ++ String.ofList x.text ++ ")" := rfl
    refine hcall (a := "PERCENTILE(") (by decide) (by decide) (by decide) hfraction ?_
    rw [htext]
    simp only [String.append_assoc]
  | sum => exact hcall (a := "SUM(") (by decide) (by decide) (by decide) hclose rfl
  | avg => exact hcall (a := "AVG(") (by decide) (by decide) (by decide) hclose rfl
  | count => exact hcall (a := "COUNT(") (by decide) (by decide) (by decide) hclose rfl
  | countDistinct =>
    exact hcall (a := "COUNT(DISTINCT ") (by decide) (by decide) (by decide) hclose rfl
  | min => exact hcall (a := "MIN(") (by decide) (by decide) (by decide) hclose rfl
  | max => exact hcall (a := "MAX(") (by decide) (by decide) (by decide) hclose rfl
  | median => exact hcall (a := "MEDIAN(") (by decide) (by decide) (by decide) hclose rfl

/-- A group shows the signs of what it encloses. -/
theorem group (h : ShowsSigns t) : ShowsSigns (.group t) :=
  of_opens rfl (opens_parens _) (prints_parens h.prints)

/-- An operation has blanks around its sign. -/
theorem prints_operator (op : ArithOp) : Prints (" " ++ op.symbol ++ " ") False := by
  have hkept (c : Char) (hc : isQuoteMark c = false) :
      ∀ t, unquoted none ([' ', c, ' '] ++ t) = [' ', c, ' '] ++ unquoted none t := by
    intro t
    rw [List.cons_append, unquoted, List.cons_append, if_neg (by decide), unquoted, hc]
    rfl
  have hblank : ∀ c ∈ some ' ', c ≠ '-' ∧ c ≠ '/' := by
    rintro _ ⟨⟩
    decide
  cases op <;> exact ⟨hkept _ rfl, by decide, by decide, hblank⟩

/-- A sum or a product shows the signs of both sides. -/
theorem binary (op : ArithOp) (hl : ShowsSigns l) (hr : ShowsSigns r) :
    ShowsSigns (.binary op l r) where
  prints := by
    have hoperand {e : Term} (h : ShowsSigns e) (right : Bool) :
        Prints (operandText op right e (termText e)) (e.doublesMinus = true) := by
      unfold operandText
      split
      · split
        · exact prints_parens h.prints
        · exact h.prints
      · exact h.prints
    have hall := (hoperand hl false).between (prints_operator op) (hoperand hr true)
    have htext : termText (.binary op l r) = operandText op false l (termText l) ++
        (" " ++ op.symbol ++ " ") ++ operandText op true r (termText r) := by
      show operandText op false l (termText l) ++ " " ++ op.symbol ++ " " ++ _ = _
      simp only [String.append_assoc]
      rfl
    rw [htext]
    exact hall.congr (by rw [Term.doublesMinus, Bool.or_eq_true])
  opens h := absurd rfl (h op l r)

/-- **A negation doubles a minus sign if its operand opens with one.** -/
theorem negate (h : ShowsSigns t) : ShowsSigns (.negate t) := by
  -- The sign stands in front of the text of the operand, or of the operand in parentheses.
  have hminus {s : String} {m d : Prop} (hopens : Opens s m) (hs : Prints s d)
      (ht : termText (.negate t) = "-" ++ s) (hd : m ∨ d ↔ (Term.negate t).doublesMinus = true) :
      ShowsSigns (.negate t) := by
    refine ⟨?_, fun _ => ?_⟩
    · rw [ht]
      exact (hopens.prints_minus hs).congr hd
    · rw [ht]
      exact ⟨'-', s.toList, by rw [String.toList_append]; rfl, by simp [Term.opensMinus]⟩
  have hplain (ho : ∀ op l r, t ≠ .binary op l r) (ht : termText (.negate t) = "-" ++ termText t) :
      ShowsSigns (.negate t) :=
    hminus (h.opens ho) h.prints ht (by rw [Term.doublesMinus, Bool.or_eq_true])
  cases t with
  | binary op l r =>
    refine hminus (opens_parens _) (prints_parens h.prints) rfl ?_
    rw [Term.doublesMinus, false_or]
    exact Iff.rfl
  | _ => exact hplain (fun _ _ _ => Term.noConfusion) rfl

end ShowsSigns

/-! ## Conditions -/

/-- The text of the condition has two minus signs in a row exactly where the condition doubles
one. -/
def CondShowsSigns (c : Cond) : Prop :=
  Prints (c.text style) (c.doublesMinus = true)

namespace CondShowsSigns

variable {c : Cond} {cs : List Cond} {l r t : Term}

/-- A test for null shows the signs of what it tests. -/
theorem isNull (negated : Bool) (h : ShowsSigns t) : CondShowsSigns (.isNull negated t) := by
  cases negated <;> exact h.prints.right (.of_harmless (by decide))

/-- A comparison shows the signs of both sides. -/
theorem compare (op : CompareOp) (hl : ShowsSigns l) (hr : ShowsSigns r) :
    CondShowsSigns (.compare op l r) := by
  have hsign : Prints (" " ++ compareSign op ++ " ") False := by
    cases op <;> exact .of_harmless (by decide)
  have htext : (Cond.compare op l r).text style =
      termText l ++ (" " ++ compareSign op ++ " ") ++ termText r := by
    show termText l ++ " " ++ compareSign op ++ " " ++ termText r = _
    simp only [String.append_assoc]
  rw [CondShowsSigns, htext]
  exact (hl.prints.between hsign hr.prints).congr (by rw [Cond.doublesMinus, Bool.or_eq_true])

theorem holds (h : ShowsSigns t) : CondShowsSigns (.holds t) :=
  h.prints

/-- A negated condition shows the signs of the condition. -/
theorem not (h : CondShowsSigns c) : CondShowsSigns (.not c) :=
  .left (.of_harmless (by decide)) (ShowsSigns.prints_parens h)

theorem anyDoublesMinus_eq (cs : List Cond) :
    Cond.anyDoublesMinus cs = cs.any Cond.doublesMinus := by
  induction cs with
  | nil => rfl
  | cons c cs ih => rw [Cond.anyDoublesMinus, ih, List.any_cons]

/-- The parts of a conjunction or an alternative, each in parentheses if it is one itself. -/
theorem childTexts_eq_map (cs : List Cond) : Cond.childTexts style cs =
    cs.map fun c => if c.isLogical then parens (c.text style) else c.text style := by
  induction cs with
  | nil => rfl
  | cons c cs ih => rw [Cond.childTexts, ih, List.map_cons]

/-- A conjunction or an alternative shows the signs of its parts. -/
theorem logical (op : LogicalOp) (h : ∀ c ∈ cs, CondShowsSigns c) :
    CondShowsSigns (.logical op cs) := by
  have hsep : Prints (style.connective op) False := by
    cases op <;> exact .of_harmless (by decide)
  have hall := hsep.intercalate (l := cs)
    (f := fun c => if c.isLogical then parens (c.text style) else c.text style)
    (D := fun c => c.doublesMinus = true) fun c hc => by
      split
      · exact ShowsSigns.prints_parens (h c hc)
      · exact h c hc
  rw [CondShowsSigns, Cond.text, childTexts_eq_map]
  exact hall.congr (by rw [Cond.doublesMinus, anyDoublesMinus_eq, List.any_eq_true])

/-- A condition in a conjunction may be put in parentheses. -/
theorem conjunct (h : CondShowsSigns c) :
    Prints (Cond.conjunctText style c) (c.doublesMinus = true) := by
  rw [Cond.conjunctText]
  split
  · exact ShowsSigns.prints_parens h
  · exact h

end CondShowsSigns

/-! ## Settling -/

section Settling

variable {sc : Scope} {t : Term}

/-- The fields of the scope show their signs, and its functions have quiet templates. -/
structure ScopeShowsSigns (sc : Scope) : Prop where
  field : ∀ q n, (∀ s ∈ q, IsName s) → IsName n → ShowsSigns (sc.field (q, n))
  template : ∀ n t, functionTemplate sc n = .ok (some t) → t.isQuiet = true

/-- A call whose name is settled shows its signs. -/
theorem showsSigns_callTerm (hsc : ScopeShowsSigns sc) {n : String} (hn : IsName n)
    {ts : List Term} (hts : ∀ t ∈ ts, ShowsSigns t) (h : callTerm sc n ts = .ok t) :
    ShowsSigns t := by
  obtain ⟨o, ho, h⟩ := bind_eq_ok.mp h
  split at h
  · rw [applyTemplate] at h
    split at h
    · cases h
    · cases h
      exact .template (hsc.template n _ ho) hts
  · cases h
    exact .call hn hts

/-- The term of a percentile shows its signs. -/
theorem showsSigns_percentileTerm (hsc : ScopeShowsSigns sc) {e : Term} (he : ShowsSigns e)
    {x : Number} (h : percentileTerm sc e x = .ok t) : ShowsSigns t := by
  obtain ⟨o, ho, h⟩ := bind_eq_ok.mp h
  split at h
  · split at h
    · cases h
    · cases h
      exact .percentile (hsc.template _ _ ho) he x
  · cases h

/-- **A term that an expression of a text settles to shows its signs.** -/
theorem showsSigns_ofExpr (hsc : ScopeShowsSigns sc) {e : Expr} (he : e.IsWorded)
    (h : Term.ofExpr sc e = .ok t) : ShowsSigns t := by
  induction he generalizing t with
  | literal v =>
    cases h
    exact .literal v
  | field hq hn =>
    cases h
    exact hsc.field _ _ hq hn
  | call hn _ ih =>
    obtain ⟨ts, hts, h⟩ := bind_eq_ok.mp h
    refine showsSigns_callTerm hsc hn (fun t ht => ?_) h
    obtain ⟨e, he, hte⟩ := exists_mem_of_forall₂ (forall₂_ofExprs hts) ht
    exact ih e he hte
  | binary op _ _ ihl ihr =>
    obtain ⟨tl, hl, h⟩ := bind_eq_ok.mp h
    obtain ⟨tr, hr, h⟩ := bind_eq_ok.mp h
    cases h
    exact .binary op (ihl hl) (ihr hr)
  | negate _ ih =>
    obtain ⟨te, hte, h⟩ := bind_eq_ok.mp h
    cases h
    exact .negate (ih hte)
  | star =>
    cases h
    exact .star

/-- A comparison whose names are settled shows its signs. -/
theorem showsSigns_ofComparison (hsc : ScopeShowsSigns sc) {l r : Expr} {op : CompareOp}
    (hl : l.IsWorded) (hr : r.IsWorded) {c : Cond} (h : Cond.ofComparison sc l op r = .ok c) :
    CondShowsSigns c := by
  unfold Cond.ofComparison at h
  split at h
  · obtain ⟨tl, htl, h⟩ := bind_eq_ok.mp h
    cases h
    exact .isNull _ (showsSigns_ofExpr hsc hl htl)
  · obtain ⟨tl, htl, h⟩ := bind_eq_ok.mp h
    cases h
    exact .isNull _ (showsSigns_ofExpr hsc hl htl)
  · obtain ⟨tl, htl, h⟩ := bind_eq_ok.mp h
    obtain ⟨tr, htr, h⟩ := bind_eq_ok.mp h
    cases h
    exact .compare op (showsSigns_ofExpr hsc hl htl) (showsSigns_ofExpr hsc hr htr)

/-- So does every condition. -/
theorem showsSigns_ofCondition (hsc : ScopeShowsSigns sc) {c : Condition} (hc : c.IsWorded)
    {x : Cond} (h : Cond.ofCondition sc c = .ok x) : CondShowsSigns x := by
  induction hc generalizing x with
  | comparison op hl hr => exact showsSigns_ofComparison hsc hl hr h
  | logical op _ ih =>
    obtain ⟨xs, hxs, h⟩ := bind_eq_ok.mp h
    cases h
    refine .logical op fun x hx => ?_
    obtain ⟨c, hc, hcx⟩ := exists_mem_of_forall₂ (forall₂_ofConditions hxs) hx
    exact ih c hc hcx
  | not _ ih =>
    obtain ⟨y, hy, h⟩ := bind_eq_ok.mp h
    cases h
    exact .not (ih hy)
  | call hcall =>
    obtain ⟨ts, hts, h⟩ := bind_eq_ok.mp h
    obtain ⟨t, ht, h⟩ := bind_eq_ok.mp h
    cases h
    cases hcall with
    | call hn hargs =>
      refine .holds (showsSigns_callTerm hsc hn (fun u hu => ?_) ht)
      obtain ⟨e, he, hte⟩ := exists_mem_of_forall₂ (forall₂_ofExprs hts) hu
      exact showsSigns_ofExpr hsc (hargs e he) hte

end Settling

end Sql

end DataPhrase
