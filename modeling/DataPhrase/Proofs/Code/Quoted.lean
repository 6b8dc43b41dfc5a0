/-
# Texts in quotes

Queries put a text into single quotes and double the quotes in it, scripts put it into double quotes
and escape quotes and backslashes. Each target has a reader of such texts here that knows nothing of
how they were written, and both readers stop at the end of the text with what the statement meant,
whatever characters the text holds (`survives_text`).
-/
import DataPhrase.Code.Script
import DataPhrase.Code.Sql
import DataPhrase.Proofs.Grammar.Pieces

namespace DataPhrase

open Code Text

/-! ## Queries -/

namespace Sql

/-- What a text says behind its opening quote, with what follows the closing one: two quotes in a
row are one of the text, any other quote closes it. -/
def behindQuote? : List Char → Option (List Char × List Char)
  | [] => none
  | '\'' :: '\'' :: r => (behindQuote? r).map fun x => ('\'' :: x.1, x.2)
  | '\'' :: r => some ([], r)
  | c :: r => (behindQuote? r).map fun x => (c :: x.1, x.2)

/-- The text in quotes in front of a query, with what follows it. -/
def textAhead? : List Char → Option (String × List Char)
  | '\'' :: r => (behindQuote? r).map fun x => (String.ofList x.1, x.2)
  | _ => none

theorem behindQuote?_closed {r : List Char} (hr : r.head? ≠ some '\'') :
    behindQuote? ('\'' :: r) = some ([], r) := by
  rw [behindQuote?]
  rintro t rfl
  exact hr rfl

theorem behindQuote?_cons {c : Char} (hc : c ≠ '\'') (r : List Char) :
    behindQuote? (c :: r) = (behindQuote? r).map fun x => (c :: x.1, x.2) := by
  rw [behindQuote?]
  · rintro t rfl rfl
    exact hc rfl
  · exact hc

/-- A text with its quotes doubled is read up to the quote behind it. -/
theorem behindQuote?_doubled (s : List Char) {r : List Char} (hr : r.head? ≠ some '\'') :
    behindQuote? ((s.flatMap fun c => if c = '\'' then ['\'', '\''] else [c]) ++ '\'' :: r) =
      some (s, r) := by
  induction s with
  | nil => exact behindQuote?_closed hr
  | cons c s ih =>
    rw [List.flatMap_cons, List.append_assoc]
    by_cases hc : c = '\''
    · subst hc
      rw [if_pos rfl, List.cons_append, List.cons_append, List.nil_append, behindQuote?, ih]
      rfl
    · rw [if_neg hc, List.cons_append, List.nil_append, behindQuote?_cons hc, ih]
      rfl

/-- A text in quotes is read back, unless the query puts another quote directly behind it. -/
theorem textAhead?_quoteText (s : String) {r : List Char} (hr : r.head? ≠ some '\'') :
    textAhead? ((quoteText s).toList ++ r) = some (s, r) := by
  simp only [quoteText, String.toList_append, String.toList_ofList, List.append_assoc]
  show (behindQuote? (_ ++ '\'' :: r)).map _ = _
  rw [behindQuote?_doubled s.toList hr, Option.map_some, String.ofList_toList]

end Sql

/-! ## Scripts -/

namespace Script

/-- The character that a backslash makes of a letter or a mark; there are escapes by the code of a
character besides these. -/
def unescape? : Char → Option Char
  | 'n' => some '\n'
  | 'r' => some '\r'
  | 't' => some '\t'
  | 'b' => some '\x08'
  | 'a' => some '\x07'
  | 'f' => some '\x0c'
  | 'v' => some '\x0b'
  | '\\' => some '\\'
  | '"' => some '"'
  | '\'' => some '\''
  | '`' => some '`'
  | _ => none

/-- What a text says behind its opening quote, with what follows the closing one. -/
def behindQuote? : List Char → Option (List Char × List Char)
  | [] => none
  | '"' :: r => some ([], r)
  | ['\\'] => none
  | '\\' :: c :: r =>
    (unescape? c).bind fun d => (behindQuote? r).map fun x => (d :: x.1, x.2)
  | c :: r => (behindQuote? r).map fun x => (c :: x.1, x.2)

/-- The text in quotes in front of a script, with what follows it. -/
def textAhead? : List Char → Option (String × List Char)
  | '"' :: r => (behindQuote? r).map fun x => (String.ofList x.1, x.2)
  | _ => none

theorem behindQuote?_cons {c : Char} (hq : c ≠ '"') (hb : c ≠ '\\') (r : List Char) :
    behindQuote? (c :: r) = (behindQuote? r).map fun x => (c :: x.1, x.2) := by
  rw [behindQuote?]
  · exact hq
  · exact fun hc _ => hb hc
  · exact fun _ _ hc _ => hb hc

/-- A text with quotes and backslashes escaped is read up to the quote behind it. -/
theorem behindQuote?_escaped (s r : List Char) :
    behindQuote? ((s.flatMap fun c =>
      if c = '\\' then ['\\', '\\'] else if c = '"' then ['\\', '"'] else [c]) ++ '"' :: r) =
      some (s, r) := by
  induction s with
  | nil => rfl
  | cons c s ih =>
    rw [List.flatMap_cons, List.append_assoc]
    by_cases hb : c = '\\'
    · subst hb
      rw [if_pos rfl, List.cons_append, List.cons_append, List.nil_append, behindQuote?, ih]
      rfl
    by_cases hq : c = '"'
    · subst hq
      rw [if_neg hb, if_pos rfl, List.cons_append, List.cons_append, List.nil_append,
        behindQuote?, ih]
      rfl
    · rw [if_neg hb, if_neg hq, List.cons_append, List.nil_append, behindQuote?_cons hq hb, ih]
      rfl

/-- A text in quotes is read back, whatever follows it. -/
theorem textAhead?_quoteText (s : String) (r : List Char) :
    textAhead? ((quoteText s).toList ++ r) = some (s, r) := by
  simp only [quoteText, String.toList_append, String.toList_ofList, List.append_assoc]
  show (behindQuote? (_ ++ '"' :: r)).map _ = _
  rw [behindQuote?_escaped, Option.map_some, String.ofList_toList]

end Script

/-! ## Statements -/

/-- In the code of every target the constant ends where its text ends, and says `s`: neither a query
nor a script can be made to read a part of the text as code. -/
structure Survives (s : String) (e : Term) : Prop where
  query : ∀ r : List Char, r.head? ≠ some '\'' →
    Sql.textAhead? ((Sql.termText e).toList ++ r) = some (s, r)
  script : ∀ (countRows distinct : String) (r : List Char),
    Script.textAhead? ((e.text (Script.style countRows distinct)).toList ++ r) = some (s, r)

theorem survives_literal (s : String) : Survives s (.literal (.text s)) where
  query _ hr := Sql.textAhead?_quoteText s hr
  script _ _ r := Script.textAhead?_quoteText s r

/-- **Texts survive every target.** Every text is read back from the code that stands for it, and
every literal of a statement is read to its end as the characters between its quotes, with the
escapes among them resolved, which is the text that its code says. -/
theorem survives_text :
    (∀ s : String, Survives s (.literal (.text s))) ∧
    ∀ (c : Char) (t : List Char) (x : Read t (List Char)), Token.isQuote c = true →
      Token.literalRest c t = some x → ∃ inside, t = inside ++ c :: x.rest ∧
        ∃ v, v.toList = Expr.unescaped inside ∧ (Expr.quotedText (c :: t)).Gives v x.rest ∧
          ∀ sc : Scope, ∃ e, Term.ofExpr sc (.text v) = .ok e ∧ Survives v e := by
  refine ⟨survives_literal, ?_⟩
  intro c t x hc hx
  obtain ⟨inside, ht, hv⟩ := Expr.exists_quotedText hc hx
  refine ⟨inside, ht, _, String.toList_ofList, hv, ?_⟩
  intro sc
  exact ⟨.literal (.text _), by rw [Expr.text, Term.ofExpr], survives_literal _⟩

/-- Quotes of both kinds and a backslash. -/
theorem survives_text_quotes :
    Survives "\\'\"" (.literal (.text "\\'\"")) ∧
    Token.isQuote '"' = true ∧ ∃ x, Token.literalRest '"' "it's \\\" 1\" + y".toList = some x ∧
      ∃ inside, "it's \\\" 1\" + y".toList = inside ++ '"' :: x.rest ∧
        ∃ v, v.toList = Expr.unescaped inside ∧
          (Expr.quotedText ('"' :: "it's \\\" 1\" + y".toList)).Gives v x.rest ∧
          ∀ sc : Scope, ∃ e, Term.ofExpr sc (.text v) = .ok e ∧ Survives v e := by
  have hsome : (Token.literalRest '"' "it's \\\" 1\" + y".toList).isSome = true := by decide +kernel
  obtain ⟨x, hx⟩ := Option.isSome_iff_exists.mp hsome
  exact ⟨survives_text.1 _, rfl, x, hx, survives_text.2 _ _ x rfl hx⟩

end DataPhrase
