/-
# Balanced texts

One pass over a text tells whether its parentheses and literals are closed and, if not, where the
fault is. The scan for tokens takes literals and groups off whole and starts anew inside of them,
and yet it fails on the same texts, for the same cause and at the same place
(`map_tokenize_eq_balance`).
-/
import DataPhrase.Proofs.Token.Nesting

namespace DataPhrase

open Text Token Nesting

/-! ## One pass with places -/

/-- A pass over a text: the bytes behind it, the nesting there, and the places of the parenthesis
that last raised the depth from 0 to 1 and of the quote that last opened a literal. -/
structure Pass where
  offset : Nat := 0
  nesting : Nesting := .level
  group : Nat := 0
  quote : Nat := 0

namespace Pass

/-- One character further. A parenthesis that closes nothing is a fault where it stands. -/
def step (p : Pass) (c : Char) : Except SyntaxError Pass :=
  match p.nesting.step c with
  | none => .error ⟨.unbalancedParenthesis, p.offset⟩
  | some m => .ok {
      offset := p.offset + c.utf8Size
      nesting := m
      group := if p.nesting.depth = 0 ∧ m.depth = 1 then p.offset else p.group
      quote := if p.nesting.literal = .outside ∧ m.literal ≠ .outside then p.offset else p.quote }

/-- The pass over a text. -/
def run (p : Pass) (s : List Char) : Except SyntaxError Pass :=
  s.foldlM step p

/-- At the end of the text, an open literal is a fault at its quote, and otherwise open parentheses
are one at the outermost of them. -/
def finish (p : Pass) : Except SyntaxError Unit :=
  if p.nesting.literal ≠ .outside then .error ⟨.unterminatedString, p.quote⟩
  else if p.nesting.depth ≠ 0 then .error ⟨.unbalancedParenthesis, p.group⟩
  else .ok ()

end Pass

/-- The fault of a text, if it has one. -/
def balance (text : List Char) : Except SyntaxError Unit := do
  let p ← Pass.run {} text
  p.finish

namespace Pass

variable {p p' : Pass} {m l : Nesting} {c : Char} {s u v : List Char}

theorem run_cons : p.run (c :: s) = p.step c >>= fun p => p.run s :=
  List.foldlM_cons

theorem run_append : p.run (u ++ v) = p.run u >>= fun p => p.run v :=
  List.foldlM_append

theorem step_eq_ok : p.step c = .ok p' ↔ ∃ m, p.nesting.step c = some m ∧
    { offset := p.offset + c.utf8Size
      nesting := m
      group := if p.nesting.depth = 0 ∧ m.depth = 1 then p.offset else p.group
      quote := if p.nesting.literal = .outside ∧ m.literal ≠ .outside then p.offset
        else p.quote } = p' := by
  unfold step
  cases p.nesting.step c with
  | none => simp
  | some m => simp

/-- The nesting of a pass does not depend on its places. -/
theorem exists_run (h : p.nesting.run s = some m) :
    ∃ p', p.run s = .ok p' ∧ p'.nesting = m ∧ p'.offset = p.offset + byteCount s := by
  induction s generalizing p with
  | nil => exact ⟨p, rfl, Option.some.inj h, rfl⟩
  | cons c s ih =>
    rw [Nesting.run_cons] at h
    obtain ⟨k, hk, h⟩ := Option.bind_eq_some_iff.mp h
    obtain ⟨q, hq, hm, ho⟩ := ih (p := ⟨p.offset + c.utf8Size, k, _, _⟩) h
    refine ⟨q, ?_, hm, ?_⟩
    · rw [run_cons, step_eq_ok.mpr ⟨k, hk, rfl⟩]
      exact hq
    · rw [ho, byteCount_cons, Nat.add_assoc]

/-- On a path where no step changes it, a place of the pass stays. -/
theorem exists_run_of_through {P : Nesting → Prop} {f : Pass → Nat}
    (hf : ∀ p p' c, p.step c = .ok p' → P p.nesting → P p'.nesting → f p' = f p)
    (h : Through P m s l) (hm : P m) (hp : p.nesting = m) :
    ∃ p', p.run s = .ok p' ∧ p'.nesting = l ∧ f p' = f p := by
  induction h generalizing p with
  | nil => exact ⟨p, rfl, hp, rfl⟩
  | @cons m k l c s hs hk _ ih =>
    subst hp
    obtain ⟨q, hq, hl, hplace⟩ := ih hk (p := ⟨p.offset + c.utf8Size, k, _, _⟩) rfl
    have hstep := step_eq_ok.mpr ⟨k, hs, rfl⟩
    refine ⟨q, ?_, hl, hplace.trans (hf _ _ c hstep hm hk)⟩
    rw [run_cons, hstep]
    exact hq

/-- Inside of a literal no other one is opened. -/
theorem quote_step (p p' : Pass) (c : Char) (h : p.step c = .ok p')
    (hp : p.nesting.literal ≠ .outside) (_ : p'.nesting.literal ≠ .outside) :
    p'.quote = p.quote := by
  obtain ⟨m, -, rfl⟩ := step_eq_ok.mp h
  exact if_neg fun hq => hp hq.1

/-- Inside of parentheses the depth is not raised from 0. -/
theorem group_step (p p' : Pass) (c : Char) (h : p.step c = .ok p')
    (hp : p.nesting.depth ≠ 0) (_ : p'.nesting.depth ≠ 0) : p'.group = p.group := by
  obtain ⟨m, -, rfl⟩ := step_eq_ok.mp h
  exact if_neg fun hg => hp hg.1

end Pass

/-! ## The fault of a text -/

variable {c : Char} {s r text : List Char} {cause : Cause} {n : Nat}

theorem balance_of_level (h : level.run text = some level) : balance text = .ok () := by
  obtain ⟨p, hp, hlevel, -⟩ := Pass.exists_run (p := {}) h
  rw [balance, hp]
  show p.finish = .ok ()
  rw [Pass.finish, hlevel]
  rfl

/-- The pass comes to the fault of the text, at the place where the ending in question starts. -/
theorem balance_of_fault (h : Fault text cause r) :
    balance text = .error ⟨cause, byteCount text - byteCount r⟩ := by
  cases h with
  | @close u t hu =>
    obtain ⟨p, hp, hlevel, ho⟩ := Pass.exists_run (p := {}) hu
    have hstep : p.step ')' = .error ⟨.unbalancedParenthesis, p.offset⟩ := by
      rw [Pass.step, hlevel]
      rfl
    rw [balance, Pass.run_append, hp, byteCount_append_sub]
    show (p.run (')' :: t) >>= Pass.finish) = _
    rw [Pass.run_cons, hstep, ho, Nat.zero_add]
    rfl
  | @group u t k hu ht =>
    obtain ⟨p, hp, hlevel, ho⟩ := Pass.exists_run (p := {}) hu
    have hopen : p.nesting.step '(' = some ⟨1, .outside⟩ := by
      rw [hlevel]
      rfl
    obtain ⟨p', hp', hend, hgroup⟩ := Pass.exists_run_of_through Pass.group_step ht
      (Nat.succ_ne_zero 0) (p := ⟨p.offset + '('.utf8Size, ⟨1, .outside⟩, _, _⟩) rfl
    rw [balance, Pass.run_append, hp, byteCount_append_sub]
    show (p.run ('(' :: t) >>= Pass.finish) = _
    rw [Pass.run_cons, Pass.step_eq_ok.mpr ⟨_, hopen, rfl⟩]
    show (Pass.run _ t >>= Pass.finish) = _
    rw [hp']
    show p'.finish = _
    rw [Pass.finish, hend, hgroup, hlevel, ho, Nat.zero_add]
    rfl
  | @literal u t q k hu hq ht =>
    obtain ⟨p, hp, hlevel, ho⟩ := Pass.exists_run (p := {}) hu
    have hquote : p.nesting.step q = some ⟨k, .inside q⟩ := by
      rw [hlevel]
      exact step_quote hq k
    obtain ⟨l, hl, hpath⟩ := exists_through_of_none ht k
    obtain ⟨p', hp', hend, hplace⟩ := Pass.exists_run_of_through Pass.quote_step hpath
      MaskState.noConfusion (p := ⟨p.offset + q.utf8Size, ⟨k, .inside q⟩, _, _⟩) rfl
    rw [balance, Pass.run_append, hp, byteCount_append_sub]
    show (p.run (q :: t) >>= Pass.finish) = _
    rw [Pass.run_cons, Pass.step_eq_ok.mpr ⟨_, hquote, rfl⟩]
    show (Pass.run _ t >>= Pass.finish) = _
    rw [hp']
    show p'.finish = _
    rw [Pass.finish, hend, if_pos hl, hplace, hlevel, ho, Nat.zero_add]
    rfl

/-! ## The fault that the scan finds -/

theorem Token.run_of_wordRest (h : (wordRest s).Gives text r) : level.run text = some level := by
  fun_induction wordRest s generalizing text r with
  | case1 =>
    obtain ⟨rfl, -⟩ := Outcome.gives_done.mp h
    rfl
  | case2 =>
    obtain ⟨rfl, -⟩ := Outcome.gives_done.mp h
    rfl
  | case3 => exact absurd h Outcome.not_gives_error
  | case4 c t x hx hlen hb ih =>
    obtain ⟨w, hw, rfl⟩ := Outcome.gives_map.mp (Outcome.gives_widen.mp h)
    rw [run_append, (isPiece_of_piece hx).run_eq, Option.bind_some, ih hw]

theorem Token.fault_of_wordRest {e : Stop Cause s} (h : wordRest s = .error e) :
    Fault s e.cause e.rest := by
  fun_induction wordRest s with
  | case1 => cases h
  | case2 => cases h
  | case3 c t e' he hb =>
    cases h
    exact fault_of_piece he
  | case4 c t x hx hlen hb ih =>
    obtain ⟨e', he, rfl⟩ := Outcome.widen_eq_error.mp h
    have hrest := (ih (Outcome.map_eq_error.mp he)).behind (isPiece_of_piece hx).run_eq
    rw [append_piece hx] at hrest
    exact hrest

theorem Token.fault_of_word {e : Stop Cause (c :: s)} (h : word c s = .error e) :
    Fault (c :: s) e.cause e.rest := by
  unfold word at h
  split at h
  · next e' he =>
    cases h
    exact fault_of_piece he
  · next x hx =>
    split at h
    · next e' he =>
      cases h
      have hrest := (fault_of_wordRest he).behind (isPiece_of_piece hx).run_eq
      rw [append_piece hx] at hrest
      exact hrest
    · cases h

theorem Token.Fault.suffix (h : Fault s cause r) : r <:+ s := by
  cases h with
  | close => exact List.suffix_append _ _
  | group => exact List.suffix_append _ _
  | literal => exact List.suffix_append _ _

/-- The scan takes all of a balanced text and stops at the fault of any other one. -/
def Token.Ends (n : Nat) (s : List Char) : Except SyntaxError (List Token) → Prop
  | .ok _ => level.run s = some level
  | .error e => ∃ r, Fault s e.cause r ∧ e.offset = n + (byteCount s - byteCount r)

/-- What stands in front of a text at the level outside does not change how its scan ends. -/
theorem Token.Ends.behind {u : List Char} {x : Except SyntaxError (List Token)}
    (h : Ends (n + byteCount u) s x) (hu : level.run u = some level) : Ends n (u ++ s) x := by
  cases x with
  | ok ts =>
    show level.run (u ++ s) = some level
    rw [run_append, hu]
    exact h
  | error e =>
    obtain ⟨r, hr, ho⟩ := h
    refine ⟨r, hr.behind hu, ?_⟩
    have := byteCount_le_of_suffix hr.suffix
    rw [ho, byteCount_append]
    omega

theorem Token.Ends.map_cons {x : Except SyntaxError (List Token)} (h : Ends n s x)
    (token : Token) : Ends n s (x.map (token :: ·)) := by
  cases x with
  | ok ts => exact h
  | error e => exact h

theorem Token.ends_scan (n : Nat) (s : List Char) : Ends n s (scan n s) := by
  apply scan_induction (P := Ends)
  case nil => exact fun _ => rfl
  case arrow => exact fun n s x ih => (Ends.behind (u := ['-', '>']) ih rfl).map_cons _
  case gap =>
    intro n c s x hg ih
    have hc : level.run [c] = some level := run_of_isPassed (isPassed_of_isGap hg) []
    have hsize : byteCount [c] = 1 := utf8Size_of_isGap hg
    exact Ends.behind (u := [c]) (hsize ▸ ih) hc
  case fault => exact fun n c s e he => ⟨e.rest, fault_of_word he, rfl⟩
  case word =>
    intro n c s y x hg ha hy ih
    have hrest := gives_wordRest_of_word hy (atBreak_eq_false hg ha)
    have hbehind := ih.behind (run_of_wordRest hrest)
    rw [append_word hy] at hbehind
    exact hbehind.map_cons _

/-- **The scan for tokens fails exactly on the texts that one pass finds a fault in**, with the
cause and the place of that fault, whichever of them comes first. -/
theorem map_tokenize_eq_balance (text : List Char) :
    (tokenize text).map (fun _ => ()) = balance text := by
  have hends := Token.ends_scan 0 text
  unfold tokenize
  cases hscan : Token.scan 0 text with
  | ok ts =>
    rw [hscan] at hends
    exact (balance_of_level hends).symm
  | error e =>
    rw [hscan] at hends
    obtain ⟨r, hr, ho⟩ := hends
    rw [balance_of_fault hr, ← Nat.zero_add (byteCount text - byteCount r), ← ho]
    rfl

/-- Of a literal that is never closed and a parenthesis around it, the literal is the fault. -/
example : balance "f(x, \"y)".toList = .error ⟨.unterminatedString, 5⟩ := by rfl

end DataPhrase
