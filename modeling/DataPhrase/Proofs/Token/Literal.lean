/-
# Literals

A literal is a quote, characters that are plain or follow a backslash, and the same quote again.
Where the scan for tokens meets a quote it takes off one literal or fails, and masking puts blanks
for exactly what stands between the two quotes (`mask_literal`).
-/
import DataPhrase.Proofs.Token.Masked

namespace DataPhrase.Token

open Text

variable {c q : Char} {s t u v w : List Char}

/-! ## What is between quotes -/

/-- The text may stand between two quotes `q`: its characters are plain or follow a backslash. -/
inductive IsQuoted (q : Char) : List Char → Prop where
  | nil : IsQuoted q []
  | plain {c : Char} {v : List Char} (he : c ≠ '\\') (hc : c ≠ q) (h : IsQuoted q v) :
      IsQuoted q (c :: v)
  | escaped {c : Char} {v : List Char} (h : IsQuoted q v) : IsQuoted q ('\\' :: c :: v)

/-- The text is one complete literal. -/
def IsLiteral (w : List Char) : Prop :=
  ∃ q v, isQuote q = true ∧ IsQuoted q v ∧ w = q :: (v ++ [q])

/-- What is taken off behind an opening quote is the rest of a literal. -/
theorem exists_isQuoted {x : Read s (List Char)} (h : literalRest q s = some x) :
    ∃ v, IsQuoted q v ∧ x.value = v ++ [q] ∧ s = v ++ q :: x.rest := by
  fun_induction literalRest q s with
  | case1 => cases h
  | case2 => cases h
  | case3 c r ih =>
    obtain ⟨y, hy, rfl⟩ := Option.map_eq_some_iff.mp h
    obtain ⟨v, hv, hvalue, hs⟩ := ih hy
    exact ⟨'\\' :: c :: v, .escaped hv, congrArg (fun v => '\\' :: c :: v) hvalue,
      congrArg (fun v => '\\' :: c :: v) hs⟩
  | case4 r h1 h2 =>
    cases h
    exact ⟨[], .nil, rfl, rfl⟩
  | case5 c r h1 h2 hc ih =>
    obtain ⟨y, hy, rfl⟩ := Option.map_eq_some_iff.mp h
    obtain ⟨v, hv, hvalue, hs⟩ := ih hy
    exact ⟨c :: v, .plain (ne_backslash_of_not h1 h2) hc hv, congrArg (c :: ·) hvalue,
      congrArg (c :: ·) hs⟩

theorem isLiteral_of_literalRest {x : Read s (List Char)} (hc : isQuote c = true)
    (hx : literalRest c s = some x) : IsLiteral (c :: x.value) := by
  obtain ⟨v, hv, hvalue, -⟩ := exists_isQuoted hx
  exact ⟨c, v, hc, hv, congrArg (c :: ·) hvalue⟩

/-- The rest of a literal is taken off up to its closing quote. -/
theorem literalRest_of_isQuoted (hq : q ≠ '\\') (hv : IsQuoted q v) (hs : s = v ++ q :: t) :
    ∃ x : Read s (List Char), literalRest q s = some x ∧ x.value = v ++ [q] ∧ x.rest = t := by
  induction hv generalizing s with
  | nil =>
    obtain rfl : s = q :: t := hs
    refine ⟨⟨[q], t, List.suffix_cons q t⟩, ?_, rfl, rfl⟩
    rw [literalRest.eq_4 q q t (fun h => absurd h hq) fun _ _ h => absurd h hq,
      if_pos rfl]
  | @plain c v he hc _ ih =>
    obtain rfl : s = c :: (v ++ q :: t) := hs
    obtain ⟨x, hx, hvalue, hrest⟩ := ih rfl
    refine ⟨⟨c :: x.value, x.rest, x.suffix.trans (List.suffix_cons c _)⟩, ?_,
      congrArg (c :: ·) hvalue, hrest⟩
    rw [literalRest.eq_4 q c _ (fun h => absurd h he) fun _ _ h => absurd h he,
      if_neg hc, hx]
    rfl
  | @escaped c v _ ih =>
    obtain rfl : s = '\\' :: c :: (v ++ q :: t) := hs
    obtain ⟨x, hx, hvalue, hrest⟩ := ih rfl
    refine ⟨⟨'\\' :: c :: x.value, x.rest,
      x.suffix.trans ((List.suffix_cons c _).trans (List.suffix_cons _ _))⟩, ?_,
      congrArg (fun v => '\\' :: c :: v) hvalue, hrest⟩
    rw [literalRest, hx]
    rfl

/-! ## Masking -/

theorem utf8Size_of_isQuote (h : isQuote q = true) : q.utf8Size = 1 := by
  rw [isQuote, Bool.or_eq_true, beq_iff_eq, beq_iff_eq] at h
  rcases h with rfl | rfl <;> rfl

/-- Between its quotes a literal is blank. -/
theorem maskFrom_isQuoted (hv : IsQuoted q v) (t : List Char) :
    maskFrom (.inside q) (v ++ t) =
      List.replicate (byteCount v) ' ' ++ maskFrom (.inside q) t := by
  induction hv with
  | nil => rfl
  | @plain c v he hc _ ih =>
    rw [List.cons_append, maskFrom, if_neg he, if_neg hc, ih, byteCount_cons, blanksFor,
      ← List.append_assoc, List.replicate_append_replicate]
  | @escaped c v _ ih =>
    rw [List.cons_append, List.cons_append, maskFrom, if_pos rfl, maskFrom, ih, byteCount_cons,
      byteCount_cons, blanksFor, blanksFor, ← List.append_assoc, ← List.append_assoc,
      List.replicate_append_replicate, List.append_assoc, ← List.append_assoc,
      List.replicate_append_replicate, Nat.add_assoc]

/-- **Masking keeps the two quotes of a literal** and puts a blank for each byte between them. -/
theorem mask_literal (hq : isQuote q = true) (hv : IsQuoted q v) (t : List Char) :
    mask (q :: (v ++ q :: t)) = q :: (List.replicate (byteCount v) ' ' ++ q :: mask t) := by
  rw [mask, maskFrom, if_pos hq, maskFrom_isQuoted hv, maskFrom,
    if_neg (ne_backslash_of_isQuote hq), if_pos rfl]
  rfl

end DataPhrase.Token
