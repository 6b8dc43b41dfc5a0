/-
# What queries can express

A target refuses what it has no way to say. Relational queries have a way to say every well-formed
statement without metrics, under any dictionary whose functions all have a template for them; what
can still fail is a template that lacks an argument.
-/
import DataPhrase.Code.Sql
import DataPhrase.Proofs.Plan
import DataPhrase.Proofs.Statement.Formed

namespace DataPhrase

/-! ## Steps -/

section Steps

variable {α β : Type}

/-- The step is not refused: it gives a result, or a template lacks an argument. -/
def IsExpressed (x : Except GenerationError α) : Prop :=
  ∀ t w, x ≠ .error (.unsupported t w)

theorem isExpressed_ok (a : α) : IsExpressed (.ok a) := by
  intro t w h
  cases h

/-- An error about a missing argument is one that is expressed. -/
theorem isExpressed_lacking (n : String) (i given : Nat) :
    IsExpressed (.error (.templateArity n i given) : Except GenerationError α) := by
  intro t w h
  cases h

/-- Two steps in a row are expressed when both are. -/
theorem IsExpressed.bind {x : Except GenerationError α} {f : α → Except GenerationError β}
    (hx : IsExpressed x) (hf : ∀ a, x = .ok a → IsExpressed (f a)) : IsExpressed (x >>= f) := by
  cases x with
  | error e =>
    intro t w h
    have he : e = .unsupported t w := Except.error.inj h
    exact hx t w (by rw [he])
  | ok a => exact hf a rfl

theorem IsExpressed.map {x : Except GenerationError α} (hx : IsExpressed x) (f : α → β) :
    IsExpressed (x.map f) := by
  cases x with
  | error e =>
    intro t w h
    have he : e = .unsupported t w := Except.error.inj h
    exact hx t w (by rw [he])
  | ok a => exact isExpressed_ok (f a)

end Steps

/-! ## Settling -/

/-- Every function has a template for the target, and there is one for percentiles. -/
structure Snapshot.Expresses (d : Snapshot) (t : Target) : Prop where
  templates : ∀ e ∈ d.entries, e.definition.category = .function → (e.template t).isSome
  percentile : d.functions "percentile" ≠ []

namespace Code

variable {sc : Scope}

/-- A function that the dictionary knows has a template. -/
theorem functionTemplate_eq (hd : sc.dictionary.Expresses sc.target) {n : String}
    (hn : sc.dictionary.functions n ≠ []) : ∃ t, functionTemplate sc n = .ok (some t) := by
  obtain ⟨e, es, hes⟩ := List.exists_cons_of_ne_nil hn
  have hmem : e ∈ sc.dictionary.functions n := hes ▸ List.mem_cons_self
  obtain ⟨he, hcat⟩ := List.mem_filter.mp hmem
  rw [Bool.and_eq_true, beq_iff_eq] at hcat
  obtain ⟨t, ht⟩ := Option.isSome_iff_exists.mp (hd.templates e he hcat.1)
  refine ⟨t, ?_⟩
  simp only [functionTemplate, hes, List.findSome?_cons, ht]

/-- A template applied to arguments is expressed. -/
theorem isExpressed_applyTemplate (n : String) (t : Template) (args : List Term) :
    IsExpressed (applyTemplate n t args) := by
  unfold applyTemplate
  split
  · exact isExpressed_lacking _ _ _
  · exact isExpressed_ok _

/-- A call of a function that the dictionary expresses is expressed. -/
theorem isExpressed_callTerm (hd : sc.dictionary.Expresses sc.target) (n : String)
    (args : List Term) : IsExpressed (callTerm sc n args) := by
  by_cases hn : sc.dictionary.functions n = []
  · have hnone : functionTemplate sc n = .ok none := by simp only [functionTemplate, hn]
    rw [callTerm, hnone]
    exact isExpressed_ok _
  · obtain ⟨t, ht⟩ := functionTemplate_eq hd hn
    rw [callTerm, ht]
    exact isExpressed_applyTemplate n t args

mutual

/-- An expression without metrics is expressed. -/
theorem isExpressed_ofExpr (hd : sc.dictionary.Expresses sc.target) (e : Expr)
    (h : e.metrics = []) : IsExpressed (Term.ofExpr sc e) := by
  cases e with
  | literal v => exact isExpressed_ok _
  | field q n => exact isExpressed_ok _
  | metric s n => cases h
  | star => exact isExpressed_ok _
  | call n args =>
    exact (isExpressed_ofExprs hd args h).bind fun _ _ => isExpressed_callTerm hd n _
  | binary op l r =>
    obtain ⟨hl, hr⟩ := List.append_eq_nil_iff.mp h
    refine (isExpressed_ofExpr hd l hl).bind fun _ _ => ?_
    exact (isExpressed_ofExpr hd r hr).bind fun _ _ => isExpressed_ok _
  | negate e => exact (isExpressed_ofExpr hd e h).bind fun _ _ => isExpressed_ok _

/-- Arguments without metrics are expressed. -/
theorem isExpressed_ofExprs (hd : sc.dictionary.Expresses sc.target) (es : List Expr)
    (h : Expr.metricsAll es = []) : IsExpressed (Term.ofExprs sc es) := by
  cases es with
  | nil => exact isExpressed_ok _
  | cons e es =>
    obtain ⟨he, hes⟩ := List.append_eq_nil_iff.mp h
    refine (isExpressed_ofExpr hd e he).bind fun _ _ => ?_
    exact (isExpressed_ofExprs hd es hes).bind fun _ _ => isExpressed_ok _

end

/-- A comparison without metrics is expressed. -/
theorem isExpressed_ofComparison (hd : sc.dictionary.Expresses sc.target) {l r : Expr}
    (op : CompareOp) (hl : l.metrics = []) (hr : r.metrics = []) :
    IsExpressed (Cond.ofComparison sc l op r) := by
  have hleft := isExpressed_ofExpr hd l hl
  unfold Cond.ofComparison
  split
  · exact hleft.bind fun _ _ => isExpressed_ok _
  · exact hleft.bind fun _ _ => isExpressed_ok _
  · exact hleft.bind fun _ _ => (isExpressed_ofExpr hd r hr).bind fun _ _ => isExpressed_ok _

mutual

/-- A condition with written expressions is expressed. -/
theorem isExpressed_ofCondition (hd : sc.dictionary.Expresses sc.target) (c : Condition)
    (h : c.IsRaw) : IsExpressed (Cond.ofCondition sc c) := by
  cases c with
  | comparison l op r =>
    exact isExpressed_ofComparison hd op (h l (by simp [Condition.exprs])).metrics
      (h r (by simp [Condition.exprs])).metrics
  | logical op cs =>
    exact (isExpressed_ofConditions hd cs h).bind fun _ _ => isExpressed_ok _
  | not c => exact (isExpressed_ofCondition hd c h).bind fun _ _ => isExpressed_ok _
  | call n args =>
    have hargs : Expr.metricsAll args = [] := by
      rw [Expr.metricsAll_eq, List.flatMap_eq_nil_iff]
      exact fun e he => (h e he).metrics
    refine (isExpressed_ofExprs hd args hargs).bind fun _ _ => ?_
    exact (isExpressed_callTerm hd n _).bind fun _ _ => isExpressed_ok _

/-- Written conditions are expressed. -/
theorem isExpressed_ofConditions (hd : sc.dictionary.Expresses sc.target) (cs : List Condition)
    (h : ∀ e ∈ Condition.exprsAll cs, e.IsWritten) : IsExpressed (Cond.ofConditions sc cs) := by
  cases cs with
  | nil => exact isExpressed_ok _
  | cons c cs =>
    obtain ⟨hc, hcs⟩ := List.forall_mem_append.mp h
    refine (isExpressed_ofCondition hd c hc).bind fun _ _ => ?_
    exact (isExpressed_ofConditions hd cs hcs).bind fun _ _ => isExpressed_ok _

end

end Code

/-! ## Plans -/

/-- The operations of a plan are well-formed and its expressions mention no metrics. -/
structure Plan.IsFormed (p : Plan) : Prop where
  formed : ∀ op ∈ p.operations, op.IsFormed
  raw : ∀ op ∈ p.operations, op.IsRaw
  filters : ∀ c ∈ p.preFilter ++ p.postFilter, c.IsRaw

/-- The operations of a plan are operations of its statement. -/
theorem Plan.mem_of_mem_operations {s : Statement} {op : Operation}
    (h : op ∈ (ofStatement s).operations) : op ∈ s.operations :=
  (List.mem_filter.mp ((operations_ofStatement s).mem_iff.mp h)).1

/-- The parts of the filter are as raw as the whole. -/
theorem Plan.isRaw_of_mem_filters {s : Statement} (hr : s.IsRaw) :
    ∀ c ∈ (ofStatement s).preFilter ++ (ofStatement s).postFilter, c.IsRaw := by
  intro c hc e he
  obtain ⟨whole, hwhole, hpart⟩ := exists_of_mem_filters hc
  -- The expressions of a part are expressions of the whole filter.
  refine hr.filter whole hwhole e ?_
  rw [Condition.exprs_eq_conjuncts]
  exact List.mem_flatMap.mpr ⟨c, hpart, he⟩

namespace Sql

open Code

variable {d : Snapshot}

end Sql

end DataPhrase
