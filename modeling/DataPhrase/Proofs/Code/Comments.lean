/-
# Comments

Two minus signs in a row open a comment, and so do a slash and a star, unless they stand in quotes. A
text is scanned for both in pieces: when a piece that starts outside of quotes ends outside of them
and has no open sign at its end, what follows it is scanned as if it stood alone.
-/
import DataPhrase.Proofs.Code.Marks

namespace DataPhrase.Sql

open Code

/-! ## Quotes -/

/-- The text as it stands outside of quotes: the quotes are kept, and what they enclose is left out.
It starts inside of a quote if there is one. -/
def unquoted : Option Char → List Char → List Char
  | _, [] => []
  | none, c :: s => c :: unquoted (if isQuoteMark c then some c else none) s
  | some q, c :: s => if c = q then c :: unquoted none s else unquoted (some q) s

/-- The two characters stand next to each other outside of quotes. -/
def HasPair (a b : Char) (s : String) : Prop :=
  [a, b] <:+: unquoted none s.toList

instance (a b : Char) (s : String) : Decidable (HasPair a b s) :=
  inferInstanceAs (Decidable ([a, b] <:+: unquoted none s.toList))

/-- Something in the text opens a comment. -/
def OpensComment (s : String) : Prop :=
  HasPair '-' '-' s ∨ HasPair '/' '*' s

instance (s : String) : Decidable (OpensComment s) :=
  inferInstanceAs (Decidable (_ ∨ _))

/-! ## Pairs -/

/-- Two neighbours of a text with one more character are its first two or stand in the text. -/
theorem pair_infix_cons {a b c : Char} {s : List Char} :
    [a, b] <:+: c :: s ↔ (c = a ∧ s.head? = some b) ∨ [a, b] <:+: s := by
  rw [List.infix_cons_iff, List.cons_prefix_cons]
  refine or_congr_left (and_congr eq_comm ?_)
  cases s with
  | nil => simp
  | cons d s => simp [eq_comm]

/-- A pair in two texts in a row is in one of them or where they meet. -/
theorem pair_infix_append {a b : Char} {s t : List Char} :
    [a, b] <:+: s ++ t ↔
      [a, b] <:+: s ∨ [a, b] <:+: t ∨ (s.getLast? = some a ∧ t.head? = some b) := by
  induction s with
  | nil => simp
  | cons c s ih =>
    rw [List.cons_append, pair_infix_cons, pair_infix_cons, ih]
    cases s with
    | nil => simp [or_comm]
    | cons d s =>
      rw [List.cons_append, List.head?_cons, List.head?_cons, List.getLast?_cons_cons, or_assoc]

/-! ## Scanning in pieces -/

/-- The piece leads from one quote, or from outside of quotes, to another. Outside of quotes it has
no slash in front of a star, it has two minus signs in a row exactly under the given condition, and
it ends in neither a minus sign nor a slash. -/
structure Scans (u : Option Char) (s : List Char) (v : Option Char) (dashes : Prop) : Prop where
  behind : ∀ t, unquoted u (s ++ t) = unquoted u s ++ unquoted v t
  dashes : ['-', '-'] <:+: unquoted u s ↔ dashes
  slash : ¬ ['/', '*'] <:+: unquoted u s
  last : ∀ c ∈ (unquoted u s).getLast?, c ≠ '-' ∧ c ≠ '/'

namespace Scans

variable {u v w : Option Char} {s t : List Char} {d e : Prop} {c q : Char}

/-- The empty text changes nothing and holds no pair. -/
theorem nil (u : Option Char) : Scans u [] u False := by
  refine ⟨fun _ => rfl, ?_, ?_, ?_⟩ <;> simp [unquoted]

/-- Scans compose: a pair in the whole is one of the front or one of the back. -/
theorem append (hs : Scans u s v d) (ht : Scans v t w e) : Scans u (s ++ t) w (d ∨ e) := by
  have hmeet : ∀ a ∈ (unquoted u s).getLast?, a ≠ '-' ∧ a ≠ '/' := hs.last
  refine ⟨?_, ?_, ?_, ?_⟩
  · intro r
    rw [List.append_assoc, hs.behind, hs.behind, ht.behind, List.append_assoc]
  · rw [hs.behind, pair_infix_append, hs.dashes, ht.dashes]
    refine or_congr_right ⟨?_, Or.inl⟩
    rintro (h | ⟨h, -⟩)
    · exact h
    · exact absurd rfl (hmeet _ h).1
  · rw [hs.behind, pair_infix_append, not_or, not_or]
    exact ⟨hs.slash, ht.slash, fun h => (hmeet _ h.1).2 rfl⟩
  · intro a ha
    rw [hs.behind, List.getLast?_append] at ha
    cases hlast : (unquoted v t).getLast? with
    | none =>
      rw [hlast] at ha
      exact hs.last a ha
    | some b =>
      rw [hlast] at ha
      cases ha
      exact ht.last _ hlast

theorem congr (h : Scans u s v d) (hde : d ↔ e) : Scans u s v e :=
  ⟨h.behind, h.dashes.trans hde, h.slash, h.last⟩

/-- One character that is kept. -/
theorem kept (h : ∀ t, unquoted u (c :: t) = c :: unquoted v t) (hminus : c ≠ '-')
    (hslash : c ≠ '/') : Scans u [c] v False := by
  have hself : unquoted u [c] = [c] := h []
  refine ⟨fun t => ?_, ?_, ?_, ?_⟩
  · rw [List.singleton_append, h, hself, List.singleton_append]
  · rw [hself, pair_infix_cons]
    simp
  · rw [hself, pair_infix_cons]
    simp
  · rw [hself]
    rintro _ ⟨⟩
    exact ⟨hminus, hslash⟩

/-- A character that is neither a quote mark nor part of a pair leaves a scan where it was. -/
theorem char (hq : isQuoteMark c = false) (hminus : c ≠ '-') (hslash : c ≠ '/') :
    Scans none [c] none False :=
  kept (fun t => by rw [unquoted, hq, if_neg Bool.false_ne_true]) hminus hslash

theorem ne_of_isQuoteMark (hq : isQuoteMark q = true) : q ≠ '-' ∧ q ≠ '/' := by
  constructor <;>
  · rintro rfl
    exact absurd hq (by decide)

/-- A quote mark opens a literal. -/
theorem opening (hq : isQuoteMark q = true) : Scans none [q] (some q) False :=
  kept (fun t => by rw [unquoted, hq, if_pos rfl]) (ne_of_isQuoteMark hq).1 (ne_of_isQuoteMark hq).2

/-- The mark that opened a literal closes it. -/
theorem closing (hq : isQuoteMark q = true) : Scans (some q) [q] none False :=
  kept (fun t => by rw [unquoted, if_pos rfl]) (ne_of_isQuoteMark hq).1 (ne_of_isQuoteMark hq).2

/-- One character inside of quotes. -/
theorem inside (hc : c ≠ q) : Scans (some q) [c] (some q) False := by
  have hleft : ∀ t, unquoted (some q) (c :: t) = unquoted (some q) t := fun t => by
    rw [unquoted, if_neg hc]
  have hself : unquoted (some q) [c] = [] := hleft []
  refine ⟨fun t => ?_, ?_, ?_, ?_⟩
  · rw [List.singleton_append, hleft, hself, List.nil_append]
  all_goals simp [hself]

/-- Texts in a row each of which leads back to where it starts. -/
theorem flatMap {α : Type} {l : List α} {f : α → List Char} (h : ∀ a ∈ l, Scans u (f a) u False) :
    Scans u (l.flatMap f) u False := by
  induction l with
  | nil => exact nil u
  | cons a l ih =>
    rw [List.forall_mem_cons] at h
    exact (h.1.append (ih h.2)).congr (by rw [or_false])

/-- A text of characters that each leave the state alone leaves it alone. -/
theorem forall_mem (h : ∀ c ∈ s, Scans u [c] u False) : Scans u s u False :=
  List.flatMap_singleton' s ▸ flatMap h

/-- A text in quotes, in which the quote does not occur. -/
theorem enclosed (hq : isQuoteMark q = true) (h : ∀ c ∈ s, c ≠ q) :
    Scans none (q :: (s ++ [q])) none False := by
  have hinside : Scans (some q) s (some q) False := forall_mem fun c hc => inside (h c hc)
  have hall := (opening hq).append (hinside.append (closing hq))
  exact hall.congr (by simp)

/-- A minus sign in front of a text that does not vanish. -/
theorem minus (h : Scans none s v d) (hs : s ≠ []) :
    Scans none ('-' :: s) v (s.head? = some '-' ∨ d) := by
  have hminus : ∀ t, unquoted none ('-' :: t) = '-' :: unquoted none t := fun t => rfl
  obtain ⟨a, r, rfl⟩ := List.exists_cons_of_ne_nil hs
  have hhead : unquoted none (a :: r) =
      a :: unquoted (if isQuoteMark a then some a else none) r := rfl
  refine ⟨fun t => ?_, ?_, ?_, ?_⟩
  · show unquoted none ('-' :: (a :: r ++ t)) = _
    rw [hminus, hminus, h.behind]
    rfl
  · rw [hminus, pair_infix_cons, h.dashes, hhead]
    simp
  · rw [hminus, pair_infix_cons, not_or]
    exact ⟨fun hcon => absurd hcon.1 (by decide), h.slash⟩
  · have hlast := h.last
    rw [hhead] at hlast
    rw [hminus, hhead, List.getLast?_cons_cons]
    exact hlast

end Scans

/-! ## Texts -/

/-- The text starts and ends outside of quotes, opens no comment with a slash, and opens one with two
minus signs exactly under the given condition. -/
def Prints (s : String) (d : Prop) : Prop :=
  Scans none s.toList none d

/-- The character opens no quote and no comment. -/
def isHarmless (c : Char) : Bool :=
  !isQuoteMark c && c != '-' && c != '/'

namespace Prints

variable {s t : String} {d e : Prop}

theorem congr (h : Prints s d) (hde : d ↔ e) : Prints s e :=
  Scans.congr h hde

/-- Printed texts compose: a pair stands in the whole exactly when it stands in a part. -/
theorem append (hs : Prints s d) (ht : Prints t e) : Prints (s ++ t) (d ∨ e) := by
  rw [Prints, String.toList_append]
  exact Scans.append hs ht

/-- A text of harmless characters prints without a pair. -/
theorem of_harmless (h : s.toList.all isHarmless = true) : Prints s False := by
  refine Scans.forall_mem fun c hc => ?_
  have hc' := List.all_eq_true.mp h c hc
  simp only [isHarmless, Bool.and_eq_true, Bool.not_eq_true', bne_iff_ne] at hc'
  exact Scans.char hc'.1.1 hc'.1.2 hc'.2

theorem empty : Prints "" False :=
  of_harmless (by decide)

/-- Texts around a text. -/
theorem around {a b : String} (ha : Prints a False) (h : Prints s d) (hb : Prints b False) :
    Prints (a ++ s ++ b) d :=
  ((ha.append h).append hb).congr (by simp)

/-- A text between two texts. -/
theorem between {b : String} (hs : Prints s d) (hb : Prints b False) (ht : Prints t e) :
    Prints (s ++ b ++ t) (d ∨ e) :=
  ((hs.append hb).append ht).congr (by simp)

/-- Harmless text in front adds no pair. -/
theorem left {a : String} (ha : Prints a False) (h : Prints s d) : Prints (a ++ s) d :=
  (ha.append h).congr (by rw [false_or])

/-- Harmless text behind adds no pair. -/
theorem right {b : String} (h : Prints s d) (hb : Prints b False) : Prints (s ++ b) d :=
  (h.append hb).congr (by rw [or_false])

/-- Texts with a separator between them. -/
theorem intercalate {α : Type} {sep : String} (hsep : Prints sep False) {l : List α}
    {f : α → String} {D : α → Prop} (h : ∀ x ∈ l, Prints (f x) (D x)) :
    Prints (sep.intercalate (l.map f)) (∃ x ∈ l, D x) := by
  induction l with
  | nil =>
    rw [List.map_nil, String.intercalate_nil]
    exact empty.congr (by simp)
  | cons x l ih =>
    rw [List.forall_mem_cons] at h
    by_cases hne : l = []
    · rw [hne, List.map_singleton, String.intercalate_singleton]
      exact h.1.congr (by simp)
    · rw [List.map_cons, String.intercalate_cons_of_ne_nil (by simpa using hne)]
      exact (h.1.between hsep (ih h.2)).congr (by simp)

/-- Printed text never opens a block comment. -/
theorem not_slash (h : Prints s d) : ¬ HasPair '/' '*' s :=
  h.slash

/-- Printed text holds a doubled minus exactly where its derivation says so. -/
theorem hasPair_iff (h : Prints s d) : HasPair '-' '-' s ↔ d :=
  h.dashes

end Prints

end DataPhrase.Sql
