/-
# Nesting

One pass over a text follows how deep each character stands in parentheses and where it stands in a
literal. A piece that the scan for tokens takes off starts and ends outside of both and is inside of
one at every place between (`isPiece_of_piece`); a piece that cannot be taken off leaves the pass
inside, or at a parenthesis that closes nothing (`fault_of_piece`).
-/
import DataPhrase.Proofs.Token.Literal

namespace DataPhrase.Token

open Text

/-! ## One pass -/

/-- How deep a place of a text is in parentheses, and where it is in a literal. -/
structure Nesting where
  depth : Nat
  literal : MaskState
  deriving DecidableEq, Repr

namespace Nesting

/-- Outside of parentheses and literals. -/
def level : Nesting :=
  ⟨0, .outside⟩

/-- The nesting behind a character, none behind a parenthesis that closes nothing. In a literal,
parentheses are plain characters. -/
def step (m : Nesting) (c : Char) : Option Nesting :=
  if m.literal = .outside ∧ c = '(' then some { m with depth := m.depth + 1 }
  else if m.literal = .outside ∧ c = ')' then
    if m.depth = 0 then none else some { m with depth := m.depth - 1 }
  else some { m with literal := m.literal.step c }

/-- The nesting behind a text. -/
def run (m : Nesting) (s : List Char) : Option Nesting :=
  s.foldlM step m

variable {P Q : Nesting → Prop} {m k l : Nesting} {c q : Char} {s t u v w r : List Char} {d : Nat}

/-- Outside of literals a parenthesis opens a level. -/
theorem step_open (d : Nat) : step ⟨d, .outside⟩ '(' = some ⟨d + 1, .outside⟩ := rfl

/-- Outside of literals a parenthesis closes a level. -/
theorem step_close (d : Nat) : step ⟨d + 1, .outside⟩ ')' = some ⟨d, .outside⟩ := rfl

/-- Inside of literals levels do not change. -/
theorem step_inside (h : m.literal ≠ .outside) (c : Char) :
    m.step c = some { m with literal := m.literal.step c } := by
  rw [step, if_neg fun hc => h hc.1, if_neg fun hc => h hc.1]

/-- No other character changes the level. -/
theorem step_of_ne (ho : c ≠ '(') (hp : c ≠ ')') (m : Nesting) :
    m.step c = some { m with literal := m.literal.step c } := by
  rw [step, if_neg fun hc => ho hc.2, if_neg fun hc => hp hc.2]

/-- A quote opens a literal. -/
theorem step_quote (hc : isQuote c = true) (d : Nat) :
    step ⟨d, .outside⟩ c = some ⟨d, .inside c⟩ := by
  have ho : c ≠ '(' := by
    rintro rfl
    cases hc
  have hp : c ≠ ')' := by
    rintro rfl
    cases hc
  rw [step_of_ne ho hp]
  exact congrArg (fun l => some (Nesting.mk d l)) (MaskState.step_quote hc)

/-- The same quote closes it. -/
theorem step_endQuote (hq : q ≠ '\\') (d : Nat) :
    step ⟨d, .inside q⟩ q = some ⟨d, .outside⟩ := by
  rw [step_inside MaskState.noConfusion, MaskState.step, if_neg hq, if_pos rfl]

/-- A character that is passed changes nothing. -/
theorem step_isPassed (hc : Condition.isPassed c = true) (d : Nat) :
    step ⟨d, .outside⟩ c = some ⟨d, .outside⟩ := by
  obtain ⟨hq, ho, hp⟩ := not_isQuote_of_isPassed hc
  rw [step_of_ne ho hp]
  exact congrArg (fun l => some (Nesting.mk d l)) (MaskState.step_outside hq)

theorem run_cons : run m (c :: s) = (m.step c).bind fun k => k.run s :=
  List.foldlM_cons

/-- A character that opens and closes nothing does not change the level outside. -/
theorem run_of_isPassed (hc : Condition.isPassed c = true) (s : List Char) :
    level.run (c :: s) = level.run s := by
  rw [run_cons, level, step_isPassed hc, Option.bind_some]

/-- A text is run part by part. -/
theorem run_append : run m (u ++ v) = (m.run u).bind fun k => k.run v :=
  List.foldlM_append

/-! ## Paths of a pass -/

/-- The text leads from the first nesting to the second, and behind each of its characters `P`
holds. -/
inductive Through (P : Nesting → Prop) : Nesting → List Char → Nesting → Prop where
  | nil (m : Nesting) : Through P m [] m
  | cons {m k l : Nesting} {c : Char} {s : List Char} (hs : m.step c = some k) (hk : P k)
      (h : Through P k s l) : Through P m (c :: s) l

namespace Through

theorem one (hs : m.step c = some k) (hk : P k) : Through P m [c] k :=
  .cons hs hk (.nil k)

/-- What holds through two parts holds through the whole. -/
theorem trans (h : Through P m u k) (h' : Through P k v l) : Through P m (u ++ v) l := by
  induction h with
  | nil => exact h'
  | cons hs hk _ ih => exact .cons hs hk (ih h')

theorem mono (h : Through P m s l) (hPQ : ∀ k, P k → Q k) : Through Q m s l := by
  induction h with
  | nil m => exact .nil m
  | cons hs hk _ ih => exact .cons hs (hPQ _ hk) ih

/-- A text that is run through ends where the run says. -/
theorem run_eq (h : Through P m s l) : m.run s = some l := by
  induction h with
  | nil => rfl
  | cons hs _ _ ih => rw [run_cons, hs, Option.bind_some, ih]

/-- A path has its places at every split of its text. -/
theorem split (h : Through P m (u ++ v) l) : ∃ k, Through P m u k ∧ Through P k v l := by
  induction u generalizing m with
  | nil => exact ⟨m, .nil m, h⟩
  | cons c u ih =>
    cases h with
    | cons hs hk h =>
      obtain ⟨k, hu, hv⟩ := ih h
      exact ⟨k, .cons hs hk hu, hv⟩

/-- What holds through a text holds at its end. -/
theorem last (h : Through P m s l) (hm : P m) : P l := by
  induction h with
  | nil => exact hm
  | cons _ hk _ ih => exact ih hk

theorem last_of_ne_nil (h : Through P m s l) (hs : s ≠ []) : P l := by
  cases h with
  | nil => exact absurd rfl hs
  | cons _ hk h => exact h.last hk

end Through

/-! ## Literals -/

/-- Between its quotes a pass stays in the literal. -/
theorem through_isQuoted (hv : IsQuoted q v) (d : Nat) :
    Through (fun k => k.depth = d ∧ k.literal ≠ .outside) ⟨d, .inside q⟩ v ⟨d, .inside q⟩ := by
  induction hv with
  | nil => exact .nil _
  | plain he hc _ ih =>
    refine .cons (step_inside MaskState.noConfusion _) ⟨rfl, ?_⟩ ?_
    all_goals rw [MaskState.step, if_neg he, if_neg hc]
    · exact MaskState.noConfusion
    · exact ih
  | escaped _ ih =>
    refine .cons (step_inside MaskState.noConfusion _) ⟨rfl, MaskState.noConfusion⟩ ?_
    exact .cons (step_inside MaskState.noConfusion _) ⟨rfl, MaskState.noConfusion⟩ ih

/-- Through a literal the depth stays as it is. -/
theorem through_literal {x : Read s (List Char)} (hc : isQuote c = true)
    (hx : literalRest c s = some x) (d : Nat) :
    Through (fun k => k.depth = d) ⟨d, .outside⟩ (c :: x.value) ⟨d, .outside⟩ := by
  obtain ⟨v, hv, hvalue, -⟩ := exists_isQuoted hx
  rw [hvalue]
  have hbody := (through_isQuoted hv d).mono fun _ hk => hk.1
  have hend := step_endQuote (ne_backslash_of_isQuote hc) d
  exact .cons (step_quote hc d) rfl (hbody.trans (.one hend rfl))

/-- A literal that is not closed is not left. -/
theorem exists_through_of_none (h : literalRest q s = none) (d : Nat) :
    ∃ l, l.literal ≠ .outside ∧
      Through (fun k => k.literal ≠ .outside) ⟨d, .inside q⟩ s l := by
  fun_induction literalRest q s with
  | case1 => exact ⟨_, MaskState.noConfusion, .nil _⟩
  | case2 =>
    exact ⟨⟨d, .escaped q⟩, MaskState.noConfusion,
      .one (step_inside MaskState.noConfusion _) MaskState.noConfusion⟩
  | case3 c r ih =>
    obtain ⟨l, hl, hr⟩ := ih (Option.map_eq_none_iff.mp h)
    refine ⟨l, hl, .cons (step_inside MaskState.noConfusion _) MaskState.noConfusion ?_⟩
    exact .cons (step_inside MaskState.noConfusion _) MaskState.noConfusion hr
  | case4 => cases h
  | case5 c r h1 h2 hc ih =>
    obtain ⟨l, hl, hr⟩ := ih (Option.map_eq_none_iff.mp h)
    have hstep : step ⟨d, .inside q⟩ c = some ⟨d, .inside q⟩ := by
      rw [step_inside MaskState.noConfusion, MaskState.step, if_neg (ne_backslash_of_not h1 h2),
        if_neg hc]
    exact ⟨l, hl, .cons hstep MaskState.noConfusion hr⟩

/-! ## Groups -/

/-- A group is left with its last parenthesis. -/
theorem exists_through_group (h : (groupRest d s).Gives v r) :
    ∃ u, v = u ++ [')'] ∧ Through (·.depth ≠ 0) ⟨d + 1, .outside⟩ u ⟨1, .outside⟩ := by
  fun_induction groupRest d s generalizing v r with
  | case1 => exact absurd h Outcome.not_gives_fail
  | case2 => exact absurd h Outcome.not_gives_fail
  | case3 d c t hc x hx hlen ih =>
    obtain ⟨w, hw, rfl⟩ := Outcome.gives_map.mp (Outcome.gives_widen.mp h)
    obtain ⟨u, rfl, hu⟩ := ih hw
    have hliteral := (through_literal hc hx (d + 1)).mono (Q := (·.depth ≠ 0)) fun k hk => by
      rw [hk]
      exact Nat.succ_ne_zero d
    exact ⟨c :: x.value ++ u, (List.append_assoc _ _ _).symm, hliteral.trans hu⟩
  | case4 d t hq ih =>
    obtain ⟨w, hw, rfl⟩ := Outcome.gives_map.mp (Outcome.gives_widen.mp h)
    obtain ⟨u, rfl, hu⟩ := ih hw
    exact ⟨'(' :: u, rfl, .cons (step_open _) (Nat.succ_ne_zero _) hu⟩
  | case5 t hq hp =>
    obtain ⟨rfl, -⟩ := Outcome.gives_done.mp h
    exact ⟨[], rfl, .nil _⟩
  | case6 t d hq hp ih =>
    obtain ⟨w, hw, rfl⟩ := Outcome.gives_map.mp (Outcome.gives_widen.mp h)
    obtain ⟨u, rfl, hu⟩ := ih hw
    exact ⟨')' :: u, rfl, .cons (step_close _) (Nat.succ_ne_zero _) hu⟩
  | case7 d c t hq hp hc ih =>
    obtain ⟨w, hw, rfl⟩ := Outcome.gives_map.mp (Outcome.gives_widen.mp h)
    obtain ⟨u, rfl, hu⟩ := ih hw
    have hpassed := isPassed_of_not hq hp hc
    exact ⟨c :: u, rfl, .cons (step_isPassed hpassed _) (Nat.succ_ne_zero _) hu⟩

/-- A pass that enters the text inside of `d + 1` parentheses never leaves the outermost of them:
the text ends inside of it, or a literal that starts at the ending `r` is not closed. -/
inductive Unclosed (d : Nat) : (s : List Char) → (cause : Cause) → (r : List Char) → Prop where
  | group {s r : List Char} {k : Nat}
      (h : Through (·.depth ≠ 0) ⟨d + 1, .outside⟩ s ⟨k + 1, .outside⟩) :
      Unclosed d s .unbalancedParenthesis r
  | literal {u t : List Char} {q : Char} {k : Nat}
      (hu : Through (·.depth ≠ 0) ⟨d + 1, .outside⟩ u ⟨k + 1, .outside⟩) (hq : isQuote q = true)
      (ht : literalRest q t = none) : Unclosed d (u ++ q :: t) .unterminatedString (q :: t)

/-- A parenthesis is unclosed behind a part that closes none. -/
theorem Unclosed.behind {i : Nat} {cause : Cause} (h : Unclosed i s cause r)
    (hu : Through (·.depth ≠ 0) ⟨d + 1, .outside⟩ u ⟨i + 1, .outside⟩) :
    Unclosed d (u ++ s) cause r := by
  cases h with
  | group h => exact .group (hu.trans h)
  | literal hv hq ht =>
    rw [← List.append_assoc]
    exact .literal (hu.trans hv) hq ht

/-- A group that cannot be taken off is not closed. -/
theorem unclosed_of_groupRest {e : Stop Cause s} (h : groupRest d s = .error e) :
    Unclosed d s e.cause e.rest := by
  fun_induction groupRest d s with
  | case1 d =>
    cases h
    exact .group (.nil _)
  | case2 d c t hc hx =>
    cases h
    exact .literal (.nil _) hc hx
  | case3 d c t hc x hx hlen ih =>
    obtain ⟨e', he, rfl⟩ := Outcome.widen_eq_error.mp h
    have hrest := ih (Outcome.map_eq_error.mp he)
    have hliteral := (through_literal hc hx (d + 1)).mono (Q := (·.depth ≠ 0)) fun k hk => by
      rw [hk]
      exact Nat.succ_ne_zero d
    have hbehind := hrest.behind hliteral
    rw [List.cons_append, append_literalRest hx] at hbehind
    exact hbehind
  | case4 d t hq ih =>
    obtain ⟨e', he, rfl⟩ := Outcome.widen_eq_error.mp h
    exact (ih (Outcome.map_eq_error.mp he)).behind (.one (step_open _) (Nat.succ_ne_zero _))
  | case5 => cases h
  | case6 t d hq hp ih =>
    obtain ⟨e', he, rfl⟩ := Outcome.widen_eq_error.mp h
    exact (ih (Outcome.map_eq_error.mp he)).behind (.one (step_close _) (Nat.succ_ne_zero _))
  | case7 d c t hq hp hc ih =>
    obtain ⟨e', he, rfl⟩ := Outcome.widen_eq_error.mp h
    have hstep := step_isPassed (isPassed_of_not hq hp hc) (d + 1)
    exact (ih (Outcome.map_eq_error.mp he)).behind (.one hstep (Nat.succ_ne_zero _))

end Nesting

open Nesting

variable {c : Char} {s r u v w : List Char} {cause : Cause}

/-! ## Pieces -/

/-- The text leads from the level outside back to it, and at no place between is at this level. -/
def IsPiece (v : List Char) : Prop :=
  ∃ u c k, v = u ++ [c] ∧ Through (· ≠ level) level u k ∧ k.step c = some level

/-- A piece leaves no parenthesis open. -/
theorem IsPiece.run_eq (h : IsPiece v) : level.run v = some level := by
  obtain ⟨u, c, k, rfl, hu, hc⟩ := h
  rw [run_append, hu.run_eq, Option.bind_some, run_cons, hc]
  rfl

/-- A piece is at the level outside only where it starts and where it ends. -/
theorem IsPiece.run_ne (h : IsPiece (u ++ v)) (hu : u ≠ []) (hv : v ≠ []) :
    level.run u ≠ some level := by
  obtain ⟨t, c, k, ht, hpath, -⟩ := h
  obtain ⟨w, d, rfl⟩ := (List.eq_nil_or_concat v).resolve_left hv
  rw [List.concat_eq_append, ← List.append_assoc] at ht
  obtain rfl := List.append_inj_left' ht rfl
  obtain ⟨l, hl, -⟩ := hpath.split
  rw [hl.run_eq]
  exact fun he => hl.last_of_ne_nil hu (Option.some.inj he)

/-- What the scan takes off at once is a piece. -/
theorem isPiece_of_piece {x : Read s (List Char)} (h : piece c s = .ok x) : IsPiece x.value := by
  rcases piece_cases h with ⟨hc, y, hy, hx, -⟩ | ⟨rfl, v, hv, hx⟩ | ⟨hc, hx, -⟩
  · obtain ⟨v, hv, hvalue, -⟩ := exists_isQuoted hy
    have hbody := (through_isQuoted hv 0).mono (Q := (· ≠ level)) fun k hk he => by
      rw [he] at hk
      exact hk.2 rfl
    rw [hx]
    refine ⟨c :: v, c, _, congrArg (c :: ·) hvalue, .cons (step_quote hc 0) nofun hbody, ?_⟩
    exact step_endQuote (ne_backslash_of_isQuote hc) 0
  · obtain ⟨u, hu, hpath⟩ := exists_through_group hv
    have hinside := hpath.mono (Q := (· ≠ level)) fun k hk he => by
      rw [he] at hk
      exact hk rfl
    rw [hx]
    refine ⟨'(' :: u, ')', _, congrArg ('(' :: ·) hu, .cons (step_open 0) nofun hinside, ?_⟩
    exact step_close 0
  · rw [hx]
    exact ⟨[], c, level, rfl, .nil level, step_isPassed hc 0⟩

/-! ## Faults -/

/-- A pass over the text from the level outside comes to no good end because of what is in front of
the ending `r`: a parenthesis that closes nothing, one that is not closed, or the quote of a literal
that is not closed. -/
inductive Fault : (s : List Char) → (cause : Cause) → (r : List Char) → Prop where
  | close {u t : List Char} (hu : level.run u = some level) :
      Fault (u ++ ')' :: t) .unbalancedParenthesis (')' :: t)
  | group {u t : List Char} {k : Nat} (hu : level.run u = some level)
      (ht : Through (·.depth ≠ 0) ⟨1, .outside⟩ t ⟨k + 1, .outside⟩) :
      Fault (u ++ '(' :: t) .unbalancedParenthesis ('(' :: t)
  | literal {u t : List Char} {q : Char} {k : Nat} (hu : level.run u = some ⟨k, .outside⟩)
      (hq : isQuote q = true) (ht : literalRest q t = none) :
      Fault (u ++ q :: t) .unterminatedString (q :: t)

/-- A fault behind a level part is a fault of the text. -/
theorem Fault.behind (h : Fault s cause r) (hu : level.run u = some level) :
    Fault (u ++ s) cause r := by
  have hrun {v : List Char} : level.run (u ++ v) = level.run v := by
    rw [run_append, hu, Option.bind_some]
  cases h with
  | close hv =>
    rw [← List.append_assoc]
    exact .close (hrun.trans hv)
  | group hv ht =>
    rw [← List.append_assoc]
    exact .group (hrun.trans hv) ht
  | literal hv hq ht =>
    rw [← List.append_assoc]
    exact .literal (hrun.trans hv) hq ht

/-- **A piece that cannot be read has a fault.** -/
theorem fault_of_piece {e : Stop Cause (c :: s)} (h : piece c s = .error e) :
    Fault (c :: s) e.cause e.rest := by
  unfold piece at h
  split at h
  · next hc =>
    split at h
    · next hx =>
      cases h
      exact Fault.literal (u := []) rfl hc hx
    · cases h
  · split at h
    · next ho =>
      subst ho
      split at h
      · cases h
      · next e' he =>
        have hunclosed := unclosed_of_groupRest he
        split at h
        · next hcause =>
          cases h
          rw [hcause] at hunclosed
          cases hunclosed with
          | group hpath =>
            show Fault ('(' :: s) e'.cause ('(' :: s)
            rw [hcause]
            exact Fault.group (u := []) rfl hpath
        · next hcause =>
          cases h
          show Fault ('(' :: s) e'.cause e'.rest
          generalize e'.cause = cause at hunclosed hcause
          generalize e'.rest = r at hunclosed
          cases hunclosed with
          | group => exact absurd rfl hcause
          | @literal u t q k hu hq ht =>
            rw [← List.cons_append]
            refine Fault.literal (k := k + 1) ?_ hq ht
            rw [run_cons, show level.step '(' = some ⟨1, .outside⟩ from rfl, Option.bind_some]
            exact hu.run_eq
    · split at h
      · next hp =>
        cases h
        subst hp
        exact Fault.close (u := []) rfl
      · cases h

end DataPhrase.Token
