/-
# Runs of the scan for a condition

Whether a parenthesis holds a condition is decided by a scan of the text behind it. What the scan
does at a name, at a mark, at blanks, at a parenthesis and at a whole group is said here once.
-/
import DataPhrase.Proofs.Grammar.Pieces

namespace DataPhrase.Condition

open Text Lexeme Token

variable {c : Char} {d j k : Nat} {p s t r u w : List Char}

/-! ## Words and marks -/

/-- No connective has been read that would decide the scan. -/
def Undecided (d : Nat) (w : List Char) : Prop :=
  d = 1 → isConnective w.reverse = false

/-- A character that parts words and at which the scan finds nothing. -/
structure IsMark (d : Nat) (c : Char) : Prop where
  passed : isPassed c = true
  word : isNameChar c = false
  sign : d = 1 → ¬ (c = '=' ∨ c = '<' ∨ c = '>' ∨ c = '!')

theorem undecided_nil : Undecided d [] := by
  intro _
  decide

theorem Undecided.not_decides (hw : Undecided d w) : ¬ (d = 1 ∧ isConnective w.reverse = true) := by
  rintro ⟨hd, h⟩
  rw [hw hd] at h
  cases h

theorem showsCondition_name (hc : isNameChar c = true) :
    showsCondition d none w (c :: t) = showsCondition d none (c :: w) t := by
  rw [showsCondition, if_pos hc]

theorem showsCondition_word (hp : ∀ c ∈ p, isNameChar c = true) :
    showsCondition d none w (p ++ t) = showsCondition d none (p.reverse ++ w) t := by
  induction p generalizing w with
  | nil => rfl
  | cons c p ih =>
    rw [List.forall_mem_cons] at hp
    rw [List.cons_append, showsCondition_name hp.1, ih hp.2, List.reverse_cons, List.append_assoc]
    rfl

theorem showsCondition_mark (hw : Undecided d w) (hc : IsMark d c) :
    showsCondition d none w (c :: t) = showsCondition d none [] t := by
  obtain ⟨hp, hn, hs⟩ := hc
  obtain ⟨hq, ho, hp⟩ := not_isQuote_of_isPassed hp
  rw [showsCondition, if_neg (by simp [hn]), if_neg hw.not_decides, if_neg (by simp [hq]),
    if_neg ho, if_neg hp, if_neg fun h => hs h.1 h.2]

theorem showsCondition_marks (hw : Undecided d w) (hp : ∀ c ∈ p, IsMark d c) (hne : p ≠ []) :
    showsCondition d none w (p ++ t) = showsCondition d none [] t := by
  induction p generalizing w with
  | nil => exact absurd rfl hne
  | cons c p ih =>
    rw [List.forall_mem_cons] at hp
    rw [List.cons_append, showsCondition_mark hw hp.1]
    by_cases hnil : p = []
    · rw [hnil, List.nil_append]
    · exact ih undecided_nil hp.2 hnil

theorem isMark_of_isBlank (h : isBlank c = true) : IsMark d c where
  passed := forall_isBlank (by decide) h
  word := not_isNameChar_of_isBlank h
  sign _ hs := by
    rcases hs with rfl | rfl | rfl | rfl <;> revert h <;> decide

/-- Blanks in front at most end the word before them. -/
theorem showsCondition_trim (hw : Undecided d w) (s t : List Char) :
    ∃ v, (v = w ∨ v = []) ∧
      showsCondition d none w (s ++ t) = showsCondition d none v (trim s ++ t) := by
  have hblank : ∀ c ∈ s.takeWhile isBlank, IsMark d c :=
    fun c hc => isMark_of_isBlank (List.all_eq_true.mp List.all_takeWhile c hc)
  have hs : s ++ t = s.takeWhile isBlank ++ (trim s ++ t) := by
    rw [← List.append_assoc, trim, List.takeWhile_append_dropWhile]
  rw [hs]
  by_cases hne : s.takeWhile isBlank = []
  · exact ⟨w, Or.inl rfl, by rw [hne, List.nil_append]⟩
  · exact ⟨[], Or.inr rfl, showsCondition_marks hw hblank hne⟩

/-- Directly inside the parenthesis, a word that is a connective decides when it ends. -/
theorem showsCondition_connective (hp : ∀ c ∈ p, isNameChar c = true)
    (hconnective : isConnective p = true) (hc : isNameChar c = false) (t : List Char) :
    showsCondition 1 none [] (p ++ c :: t) = true := by
  rw [showsCondition_word hp, List.append_nil, showsCondition, if_neg (by simp [hc]), if_pos]
  rw [List.reverse_reverse]
  exact ⟨rfl, hconnective⟩

/-- Directly inside the parenthesis, a comparison sign decides. -/
theorem showsCondition_sign {x : CompareOp × Nat} (h : sign? s = some x) (w t : List Char) :
    showsCondition 1 none w (s ++ t) = true := by
  have hsign : ∀ c u, isNameChar c = false → isPassed c = true →
      (c = '=' ∨ c = '<' ∨ c = '>' ∨ c = '!') → showsCondition 1 none w (c :: u) = true := by
    intro c u hn hp hc
    obtain ⟨hq, ho, hp⟩ := not_isQuote_of_isPassed hp
    rw [showsCondition, if_neg (by simp [hn])]
    by_cases hw : isConnective w.reverse = true
    · rw [if_pos ⟨rfl, hw⟩]
    · rw [if_neg fun h => hw h.2, if_neg (by simp [hq]), if_neg ho, if_neg hp, if_pos ⟨rfl, hc⟩]
  unfold sign? at h
  split at h
  all_goals first
    | exact hsign _ _ (by decide) (by decide) (by decide)
    | cases h

/-! ## Groups -/

theorem showsCondition_open (hw : Undecided d w) :
    showsCondition d none w ('(' :: t) = showsCondition (d + 1) none [] t := by
  rw [showsCondition, if_neg (by decide), if_neg hw.not_decides, if_neg (by decide), if_pos rfl]

theorem showsCondition_close (hd : 1 ≤ d) :
    showsCondition (d + 1) none w (')' :: t) = showsCondition d none [] t := by
  rw [showsCondition, if_neg (by decide), if_neg (by omega), if_neg (by decide), if_neg (by decide),
    if_pos rfl, if_neg (by omega), Nat.add_sub_cancel]

/-- Where no backslash is, the scan goes over a group to the parenthesis that closes it. -/
theorem showsCondition_of_closes (hb : '\\' ∉ s) (h : Closes k s r) (hj : 1 ≤ j)
    (w t : List Char) :
    showsCondition (j + k + 1) none w (s ++ t) = showsCondition j none [] (r ++ t) := by
  obtain ⟨v, h⟩ := h
  have hdeep : ∀ {k w}, Undecided (j + k + 1) w := fun hd => by omega
  fun_induction groupRest k s generalizing v w with
  | case1 => exact absurd h Outcome.not_gives_fail
  | case2 => exact absurd h Outcome.not_gives_fail
  | case3 k c s hc x hx hlen ih =>
    obtain ⟨v, hv, -⟩ := Outcome.gives_map.mp (Outcome.gives_widen.mp h)
    rw [List.mem_cons, not_or] at hb
    have hrest := Expr.map_rest_literalRest c s
    rw [hx, Option.map_some] at hrest
    obtain ⟨y, hy, hyx⟩ := Option.map_eq_some_iff.mp hrest.symm
    have hliteral : Expr.literalAhead? c s = some (y.value, x.rest) := by
      rw [Expr.literalAhead?, hy, Option.map_some, hyx]
    have hquote := showsCondition_literal hliteral hb.2 (j + k + 1) t
    rw [List.cons_append, showsCondition, if_neg (by simp [isNameChar_of_isQuote hc]),
      if_neg hdeep.not_decides, if_pos hc, hquote]
    exact ih (fun hm => hb.2 (x.suffix.subset hm)) [] v hv
  | case4 k s hq ih =>
    obtain ⟨v, hv, -⟩ := Outcome.gives_map.mp (Outcome.gives_widen.mp h)
    rw [List.mem_cons, not_or] at hb
    rw [List.cons_append, showsCondition_open hdeep]
    exact ih hb.2 [] v hv
  | case5 s hq hp =>
    obtain ⟨-, rfl⟩ := Outcome.gives_done.mp h
    exact showsCondition_close hj
  | case6 s k hq ho ih =>
    obtain ⟨v, hv, -⟩ := Outcome.gives_map.mp (Outcome.gives_widen.mp h)
    rw [List.mem_cons, not_or] at hb
    rw [List.cons_append, showsCondition_close (by omega)]
    exact ih hb.2 [] v hv
  | case7 k c s hq ho hp ih =>
    obtain ⟨v, hv, -⟩ := Outcome.gives_map.mp (Outcome.gives_widen.mp h)
    rw [List.mem_cons, not_or] at hb
    by_cases hn : isNameChar c = true
    · rw [List.cons_append, showsCondition_name hn]
      exact ih hb.2 (c :: w) v hv
    · have hmark : IsMark (j + k + 1) c :=
        ⟨by simp [isPassed, hq, ho, hp], by simpa using hn, fun hd => by omega⟩
      rw [List.cons_append, showsCondition_mark hdeep hmark]
      exact ih hb.2 [] v hv

end DataPhrase.Condition
