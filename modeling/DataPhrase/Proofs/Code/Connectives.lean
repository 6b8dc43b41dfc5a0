/-
# Connectives

What a condition is put together with, over tests that are taken as they are: the truth of a formula
in three values, and how a row of marks is read as a formula, with negations above conjunctions and
these above alternatives. The marks of a condition in target code have parentheses around
conjunctions and alternatives that stand in others, and around what is negated. They read back to a
formula that is true, false or unknown whenever the condition is (`Condition.IsFilled.reads`), and a
row of conjuncts reads back to their conjunction (`Condition.exists_read?_conjuncts`).
-/
import DataPhrase.Proofs.Rows.Value
import Mathlib.Logic.Function.Iterate

namespace DataPhrase.Logic

open Rows.Algebra (conjunction alternative)

/-! ## Truth -/

/-- The truth of conditions under a connective. -/
def connect : LogicalOp → List (Option Bool) → Option Bool
  | .and => conjunction
  | .or => alternative

/-- The value of a conjunction is the conjunction of the values. -/
theorem connect_and : connect .and = conjunction :=
  rfl

/-- The truth value that decides a connective: one false part makes a conjunction false, one true
part an alternative true. -/
def deciding : LogicalOp → Bool
  | .and => false
  | .or => true

section Truth

variable {op : LogicalOp} {ts us : List (Option Bool)}

/-- Conditions under a connective are decided by one part, or unknown if one part is, or else have
the other value. -/
theorem connect_eq : connect op ts = if some (deciding op) ∈ ts then some (deciding op)
    else if none ∈ ts then none else some (!deciding op) := by
  cases op <;> rfl

/-- The value of a connective depends only on whether a deciding and an unknown value occur. -/
theorem connect_congr (hd : some (deciding op) ∈ ts ↔ some (deciding op) ∈ us)
    (hn : some (deciding op) ∉ ts → (none ∈ ts ↔ none ∈ us)) : connect op ts = connect op us := by
  rw [connect_eq, connect_eq]
  -- Where a part decides, the unknown ones do not matter.
  by_cases h : some (deciding op) ∈ ts
  · rw [if_pos h, if_pos (hd.mp h)]
  · rw [if_neg h, if_neg (mt hd.mpr h)]
    simp only [hn h]

/-- The order of conditions under a connective does not matter. -/
theorem connect_perm (h : ts.Perm us) : connect op ts = connect op us :=
  connect_congr h.mem_iff fun _ => h.mem_iff

/-- A connective with one part has its value. -/
theorem connect_singleton (op : LogicalOp) (t : Option Bool) : connect op [t] = t := by
  cases op <;> rcases t with _ | _ | _ <;> rfl

/-- A connective is decided exactly when one part decides it. -/
theorem connect_eq_deciding_iff : connect op ts = some (deciding op) ↔ some (deciding op) ∈ ts := by
  rw [connect_eq]
  split
  · next h => exact iff_of_true rfl h
  · next h =>
    refine iff_of_false ?_ h
    split <;> simp

/-- A connective is unknown exactly when no part decides it and one is unknown. -/
theorem connect_eq_none_iff :
    connect op ts = none ↔ some (deciding op) ∉ ts ∧ none ∈ ts := by
  rw [connect_eq]
  split
  · next h => simp [h]
  · next h => split <;> simp_all

/-- **Under one connective, conditions can be taken together in any way.** -/
theorem connect_append (op : LogicalOp) (ts us : List (Option Bool)) :
    connect op (ts ++ us) = connect op [connect op ts, connect op us] := by
  refine connect_congr ?_ ?_
  · rw [List.mem_append, List.mem_cons, List.mem_singleton, eq_comm, connect_eq_deciding_iff,
      eq_comm (a := some (deciding op)), connect_eq_deciding_iff]
  · intro h
    rw [List.mem_append, not_or] at h
    rw [List.mem_append, List.mem_cons, List.mem_singleton, eq_comm, connect_eq_none_iff,
      eq_comm (a := none), connect_eq_none_iff, and_iff_right h.1, and_iff_right h.2]

/-- A row that ends with another row under the same connective is one row. -/
theorem connect_concat (op : LogicalOp) (ts us : List (Option Bool)) :
    connect op (ts ++ [connect op us]) = connect op (ts ++ us) := by
  rw [connect_append, connect_singleton, ← connect_append]

end Truth

/-! ## Formulas -/

/-- A formula over tests. -/
inductive Formula (α : Type) where
  | test (a : α)
  | connect (op : LogicalOp) (l r : Formula α)
  | not (e : Formula α)

/-- The truth of a formula, given the truth of its tests. -/
def Formula.truth {α : Type} (v : α → Option Bool) : Formula α → Option Bool
  | .test a => v a
  | .connect op l r => Logic.connect op [l.truth v, r.truth v]
  | .not e => (e.truth v).map (!·)

/-! ## Reading -/

/-- A mark of a formula. -/
inductive Mark (α : Type) where
  | test (a : α)
  | connective (op : LogicalOp)
  | negation
  | opening
  | closing

variable {α : Type}

/-- What waits in one pair of parentheses: the alternatives so far, the conjuncts of the current
alternative so far, and the negations in front of the current conjunct. -/
structure Level (α : Type) where
  alternatives : Option (Formula α) := none
  conjuncts : Option (Formula α) := none
  negations : Nat := 0

/-- A formula under a connective with what stands in front of it. -/
def behind (op : LogicalOp) (front : Option (Formula α)) (e : Formula α) : Formula α :=
  match front with
  | some l => .connect op l e
  | none => e

/-- The current alternative when its last operand has been read. -/
def Level.alternative (l : Level α) (e : Formula α) : Formula α :=
  behind .and l.conjuncts (Formula.not^[l.negations] e)

/-- The formula of the level when its last operand has been read. -/
def Level.whole (l : Level α) (e : Formula α) : Formula α :=
  behind .or l.alternatives (l.alternative e)

/-- The reader stands before an operand or behind one. -/
inductive State (α : Type) where
  | before (outer : List (Level α)) (l : Level α)
  | behind (outer : List (Level α)) (l : Level α) (e : Formula α)

namespace State

/-- Read one mark. -/
def step : State α → Mark α → Option (State α)
  | .before o l, .test a => some (.behind o l (.test a))
  | .before o l, .negation => some (.before o { l with negations := l.negations + 1 })
  | .before o l, .opening => some (.before (l :: o) {})
  | .behind o l e, .connective .and =>
    some (.before o { alternatives := l.alternatives, conjuncts := some (l.alternative e) })
  | .behind o l e, .connective .or => some (.before o { alternatives := some (l.whole e) })
  | .behind (l' :: o) l e, .closing => some (.behind o l' (l.whole e))
  | _, _ => none

/-- Read marks one by one. -/
def run (st : State α) (ms : List (Mark α)) : Option (State α) :=
  ms.foldlM step st

/-- The formula that has been read. -/
def formula? : State α → Option (Formula α)
  | .behind [] l e => some (l.whole e)
  | _ => none

/-- The machine reads one list of marks behind another by going on from where the first left it. -/
theorem run_append (st : State α) (ms ns : List (Mark α)) :
    st.run (ms ++ ns) = (st.run ms).bind (run · ns) :=
  List.foldlM_append

theorem run_cons (st : State α) (m : Mark α) (ms : List (Mark α)) :
    st.run (m :: ms) = (st.step m).bind (run · ms) :=
  List.foldlM_cons

end State

/-- The formula that marks are read as, negations above conjunctions above alternatives. -/
def read? (ms : List (Mark α)) : Option (Formula α) :=
  (State.run (.before [] {}) ms).bind State.formula?

/-! ## Rows of marks -/

/-- The level in front of a row of operands under a connective, with what has been read in the row
and in the alternatives around it. -/
def Level.start (op : LogicalOp) (alternatives row : Option (Formula α)) : Level α :=
  match op with
  | .and => { alternatives := alternatives, conjuncts := row }
  | .or => { alternatives := row }

/-- What a row under a connective is read as when its last operand has been read. -/
def Level.closed (op : LogicalOp) (l : Level α) (e : Formula α) : Formula α :=
  match op with
  | .and => l.alternative e
  | .or => l.whole e

/-- The marks are read as one operand, with negations in front of it, whose truth is `t`. -/
def ReadsOperand (ms : List (Mark α)) (t : (α → Option Bool) → Option Bool) : Prop :=
  ∀ o l, ∃ n e, (State.before o l).run ms =
      some (.behind o { l with negations := l.negations + n } e) ∧
    ∀ v, (Formula.not^[n] e).truth v = t v

/-- The marks are read as operands in a row under the connective. With what stands in front of them
in the row they have the truth of a row that goes on with `t`. -/
def Reads (op : LogicalOp) (ms : List (Mark α)) (t : (α → Option Bool) → Option Bool) : Prop :=
  ∀ o a row, ∃ l e, (State.before o (.start op a row)).run ms = some (.behind o l e) ∧
    (op = .and → l.alternatives = a) ∧
    ∀ v, (l.closed op e).truth v = connect op ((row.map (Formula.truth v)).toList ++ [t v])

section Rows

variable {op : LogicalOp} {ms : List (Mark α)} {t : (α → Option Bool) → Option Bool}

/-- The value of a formula behind the front of its connective. -/
theorem truth_behind (op : LogicalOp) (front : Option (Formula α)) (e : Formula α)
    (v : α → Option Bool) : (behind op front e).truth v =
      connect op ((front.map (Formula.truth v)).toList ++ [e.truth v]) := by
  cases front with
  | none => exact (connect_singleton op _).symm
  | some l => rfl

/-- A comparison is an operand. -/
theorem readsOperand_test (a : α) : ReadsOperand [.test a] fun v => v a :=
  fun _ _ => ⟨0, .test a, rfl, fun _ => rfl⟩

/-- What stands in parentheses is read as an operand. -/
theorem Reads.parens (h : Reads .or ms t) : ReadsOperand (.opening :: ms ++ [Mark.closing]) t := by
  intro o l
  obtain ⟨l', e, hrun, -, htruth⟩ := h (l :: o) none none
  refine ⟨0, l'.whole e, ?_, fun v => (htruth v).trans (connect_singleton .or _)⟩
  have hstart : (State.before o l).step .opening = some (.before (l :: o) (.start .or none none)) :=
    rfl
  rw [List.cons_append, State.run_cons, hstart, Option.bind_some, State.run_append, hrun]
  rfl

/-- A negation of a group is an operand. -/
theorem Reads.negation (h : Reads .or ms t) :
    ReadsOperand (.negation :: .opening :: ms ++ [Mark.closing]) fun v => (t v).map (!·) := by
  intro o l
  -- The operand in parentheses is read behind one negation more.
  obtain ⟨n, e, hrun, htruth⟩ := h.parens o { l with negations := l.negations + 1 }
  refine ⟨n + 1, e, ?_, fun v => ?_⟩
  · have hnot : (State.before o l).step .negation =
        some (.before o { l with negations := l.negations + 1 }) := rfl
    rw [List.cons_append, State.run_cons, hnot, Option.bind_some, hrun, Nat.add_assoc,
      Nat.add_comm 1 n]
  · rw [Function.iterate_succ_apply', Formula.truth, htruth]

/-- An operand is a row of one. -/
theorem ReadsOperand.reads_and (h : ReadsOperand ms t) : Reads .and ms t := by
  intro o a row
  obtain ⟨n, e, hrun, htruth⟩ := h o (.start .and a row)
  refine ⟨_, e, hrun, fun _ => rfl, fun v => ?_⟩
  rw [← htruth, ← truth_behind, Level.closed, Level.alternative, Level.start, Nat.zero_add]

/-- A row of conjuncts is one alternative. -/
theorem Reads.reads_or (h : Reads .and ms t) : Reads .or ms t := by
  intro o a row
  obtain ⟨l, e, hrun, halternatives, htruth⟩ := h o row none
  refine ⟨l, e, hrun, LogicalOp.noConfusion, fun v => ?_⟩
  have hall : (l.alternative e).truth v = t v := (htruth v).trans (connect_singleton .and _)
  rw [Level.closed, Level.whole, truth_behind, hall, halternatives rfl]

/-- **Rows with a connective between them are one row.** The induction is on the rows; what has been
read of them goes in front of the rest. -/
theorem reads_intercalate {β : Type} {l : List β} (hne : l ≠ []) {ms : β → List (Mark α)}
    {t : β → (α → Option Bool) → Option Bool} (h : ∀ x ∈ l, Reads op (ms x) (t x)) :
    Reads op ([.connective op].intercalate (l.map ms)) fun v => connect op (l.map (t · v)) := by
  induction l with
  | nil => exact absurd rfl hne
  | cons x l ih =>
    rw [List.forall_mem_cons] at h
    intro o a row
    obtain ⟨k, e, hrun, halternatives, htruth⟩ := h.1 o a row
    cases l with
    | nil =>
      refine ⟨k, e, ?_, halternatives, fun v => ?_⟩
      · rw [List.map_singleton, List.intercalate_singleton]
        exact hrun
      · rw [htruth, connect_concat]
        rfl
    | cons y l =>
      -- The first row is closed by the connective and goes in front of the rest.
      obtain ⟨k', e', hrun', halternatives', htruth'⟩ :=
        ih (List.cons_ne_nil y l) h.2 o k.alternatives (some (k.closed op e))
      have hstep : (State.behind o k e).step (.connective op) =
          some (.before o (.start op k.alternatives (some (k.closed op e)))) := by
        cases op <;> rfl
      refine ⟨k', e', ?_, fun hop => (halternatives' hop).trans (halternatives hop), fun v => ?_⟩
      · rw [List.map_cons, List.map_cons, List.intercalate_cons_cons, ← List.map_cons,
          State.run_append, State.run_append, hrun, Option.bind_some, State.run_cons, hstep]
        exact hrun'
      · rw [htruth', connect_concat, connect_concat, Option.map_some, htruth]
        show connect op ([connect op _] ++ _) = _
        rw [connect_append, connect_singleton, ← connect_append, List.append_assoc]
        rfl

/-- Marks that are read as alternatives are read whole. -/
theorem Reads.exists_read? (h : Reads .or ms t) :
    ∃ f, read? ms = some f ∧ ∀ v, f.truth v = t v := by
  obtain ⟨l, e, hrun, -, htruth⟩ := h [] none none
  have hstart : (State.run (.before [] {}) ms) = some (.behind [] l e) := hrun
  refine ⟨l.whole e, ?_, fun v => (htruth v).trans (connect_singleton .or _)⟩
  rw [read?, hstart]
  rfl

end Rows

end DataPhrase.Logic

namespace DataPhrase.Condition

open Logic

/-! ## Conditions -/

/-- The condition is an alternative. -/
def isOr : Condition → Bool
  | .logical .or _ => true
  | _ => false

/-- The condition is a conjunction or an alternative. -/
def isLogical : Condition → Bool
  | .logical _ _ => true
  | _ => false

/-- Every conjunction and every alternative in the condition has at least one part. -/
inductive IsFilled : Condition → Prop where
  | comparison (l : Expr) (op : CompareOp) (r : Expr) : IsFilled (.comparison l op r)
  | logical (op : LogicalOp) {cs : List Condition} (hne : cs ≠ []) (h : ∀ c ∈ cs, IsFilled c) :
    IsFilled (.logical op cs)
  | not {c : Condition} (h : IsFilled c) : IsFilled (.not c)
  | call (n : String) (args : List Expr) : IsFilled (.call n args)

mutual

/-- The truth of a condition, given the truth of its comparisons and calls. -/
def truth (v : Condition → Option Bool) : Condition → Option Bool
  | .comparison l op r => v (.comparison l op r)
  | .logical op cs => connect op (truths v cs)
  | .not c => (truth v c).map (!·)
  | .call n args => v (.call n args)

/-- The truth of each of a list of conditions. -/
def truths (v : Condition → Option Bool) : List Condition → List (Option Bool)
  | [] => []
  | c :: cs => truth v c :: truths v cs

end

theorem truths_eq_map (v : Condition → Option Bool) (cs : List Condition) :
    truths v cs = cs.map (truth v) := by
  induction cs with
  | nil => rfl
  | cons c cs ih => rw [truths, ih, List.map_cons]

/-- What is taken as it is: a comparison or a call, or a test that comes from elsewhere, as it is
written. -/
abbrev Test := Condition ⊕ String

mutual

/-- The marks of a condition in target code. Conjunctions and alternatives inside others are in
parentheses. -/
def marks : Condition → List (Mark Test)
  | .comparison l op r => [.test (.inl (.comparison l op r))]
  | .logical op cs => [.connective op].intercalate (childMarks cs)
  | .not c => .negation :: .opening :: c.marks ++ [Mark.closing]
  | .call n args => [.test (.inl (.call n args))]

/-- The marks of the children of a conjunction or an alternative. -/
def childMarks : List Condition → List (List (Mark Test))
  | [] => []
  | c :: r => (if c.isLogical then .opening :: c.marks ++ [Mark.closing] else c.marks) :: childMarks r

end

/-- The marks of a condition under a connective. -/
def operandMarks (c : Condition) : List (Mark Test) :=
  if c.isLogical then .opening :: c.marks ++ [Mark.closing] else c.marks

/-- The marks of a condition that stands in a conjunction. -/
def conjunctMarks (c : Condition) : List (Mark Test) :=
  if c.isOr then .opening :: c.marks ++ [Mark.closing] else c.marks

theorem childMarks_eq_map (cs : List Condition) : childMarks cs = cs.map operandMarks := by
  induction cs with
  | nil => rfl
  | cons c cs ih => rw [childMarks, ih, List.map_cons, operandMarks]

/-- What the marks of a condition are read with: its truth, under a truth of all tests. -/
def reading (c : Condition) (v : Test → Option Bool) : Option Bool :=
  c.truth fun a => v (.inl a)

variable {c : Condition} {cs : List Condition}

/-- **The marks of a condition are read as formulas with its truth**: as alternatives in any case,
as conjuncts if it is no alternative, and as one operand if it is no conjunction either. -/
theorem IsFilled.reads (h : c.IsFilled) :
    (c.isLogical = false → ReadsOperand c.marks c.reading) ∧
      (c.isOr = false → Reads .and c.marks c.reading) ∧ Reads .or c.marks c.reading := by
  have hoperand {c : Condition} (h : ReadsOperand c.marks c.reading) :
      (c.isLogical = false → ReadsOperand c.marks c.reading) ∧
        (c.isOr = false → Reads .and c.marks c.reading) ∧ Reads .or c.marks c.reading :=
    ⟨fun _ => h, fun _ => h.reads_and, h.reads_and.reads_or⟩
  induction h with
  | comparison l op r => exact hoperand (readsOperand_test _)
  | call n args => exact hoperand (readsOperand_test _)
  | not _ ih => exact hoperand ih.2.2.negation
  | @logical op cs hne _ ih =>
    -- Whatever the connective, a child is one operand: it is no row, or in parentheses.
    have hchild : ∀ c ∈ cs, ReadsOperand c.operandMarks c.reading := by
      intro c hc
      rw [operandMarks]
      split
      · exact (ih c hc).2.2.parens
      · next hlogical => exact (ih c hc).1 ((Bool.not_eq_true _).mp hlogical)
    have hrow (h : ∀ c ∈ cs, Reads op c.operandMarks c.reading) :
        Reads op (marks (.logical op cs)) (reading (.logical op cs)) := by
      unfold reading
      simp only [marks, truth, childMarks_eq_map, truths_eq_map]
      exact reads_intercalate hne h
    refine ⟨Bool.noConfusion, ?_⟩
    cases op with
    | and =>
      have hand := hrow fun c hc => (hchild c hc).reads_and
      exact ⟨fun _ => hand, hand.reads_or⟩
    | or => exact ⟨Bool.noConfusion, hrow fun c hc => (hchild c hc).reads_and.reads_or⟩

/-- The conjuncts of a condition are read as a conjunction with its value. -/
theorem IsFilled.reads_conjunctMarks (h : c.IsFilled) : Reads .and c.conjunctMarks c.reading := by
  rw [conjunctMarks]
  split
  · exact h.reads.2.2.parens.reads_and
  · next hor => exact h.reads.2.1 ((Bool.not_eq_true _).mp hor)

/-- **Conjuncts and tests in a row are read as their conjunction.** -/
theorem exists_read?_conjuncts {tests : List String} (hne : cs ≠ [] ∨ tests ≠ [])
    (h : ∀ c ∈ cs, c.IsFilled) :
    ∃ f, read? ([.connective .and].intercalate
        (cs.map conjunctMarks ++ tests.map fun a => [.test (.inr a)])) = some f ∧
      ∀ v, f.truth v = connect .and (cs.map (reading · v) ++ tests.map fun a => v (.inr a)) := by
  let ms : Test → List (Mark Test) := Sum.elim conjunctMarks fun a => [.test (.inr a)]
  let t : Test → (Test → Option Bool) → Option Bool := Sum.elim reading fun a v => v (.inr a)
  have hne' : cs.map Sum.inl ++ tests.map Sum.inr ≠ ([] : List Test) := by
    simpa [or_iff_not_imp_left] using hne
  have hreads :
      ∀ x ∈ (cs.map Sum.inl ++ tests.map Sum.inr : List Test), Reads .and (ms x) (t x) := by
    intro x hx
    rcases List.mem_append.mp hx with hx | hx
    · obtain ⟨c, hc, rfl⟩ := List.mem_map.mp hx
      exact (h c hc).reads_conjunctMarks
    · obtain ⟨a, -, rfl⟩ := List.mem_map.mp hx
      exact (readsOperand_test _).reads_and
  have hread := (reads_intercalate hne' hreads).reads_or.exists_read?
  simp only [List.map_append, List.map_map] at hread
  exact hread

/-- The conjuncts of a filled condition are filled. -/
theorem IsFilled.conjuncts (h : c.IsFilled) : ∀ x ∈ c.conjuncts, x.IsFilled := by
  unfold Condition.conjuncts
  split
  · cases h with
    | logical _ _ h => exact h
  · exact List.forall_mem_singleton.mpr h

/-- **The truth of a condition is that of its conjuncts together.** -/
theorem truth_eq_conjuncts (v : Condition → Option Bool) (c : Condition) :
    c.truth v = connect .and (c.conjuncts.map (truth v)) := by
  unfold conjuncts
  split
  · rw [truth, truths_eq_map]
  · rw [List.map_singleton, connect_singleton]

end DataPhrase.Condition
