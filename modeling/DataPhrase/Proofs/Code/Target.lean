/-
# Code and the target of a statement

The code of a statement depends on its content alone, not on its surface form or the record of its
stages. Its target is not used in queries, and in scripts it is named once, in front.
-/
import DataPhrase.Code.Generate
import DataPhrase.Proofs.Settled

namespace DataPhrase

variable {d : Snapshot} {s t : Statement}

/-! ## Statements of one content -/

/-- Two statements say the same, apart from their surface form, their target and the record of their
stages. -/
structure Statement.SameContent (s t : Statement) : Prop where
  source : s.source = t.source
  operations : s.operations = t.operations
  group : s.group = t.group
  filter : s.filter = t.filter
  order : s.order = t.order
  period : s.period = t.period
  limit : s.limit = t.limit

/-! ## Plans -/

namespace Plan

/-- The plan with another target. -/
def retarget (target : Option String) (p : Plan) : Plan :=
  { p with target := target }

theorem add_retarget (needed : List String) (target : Option String) (p : Plan) (op : Operation) :
    add needed (p.retarget target) op = (add needed p op).retarget target := by
  cases op with
  | calculate e n =>
    have hr : runsAfter needed (p.retarget target) ⟨n, e⟩ = runsAfter needed p ⟨n, e⟩ := rfl
    rw [add, add, hr]
    split <;> rfl
  | _ => rfl

theorem foldl_add_retarget (needed : List String) (target : Option String) (p : Plan)
    (ops : List Operation) :
    ops.foldl (add needed) (p.retarget target) = (ops.foldl (add needed) p).retarget target := by
  induction ops generalizing p with
  | nil => rfl
  | cons op ops ih => rw [List.foldl_cons, List.foldl_cons, add_retarget, ih]

/-- Statements of one content have one plan, up to its target. -/
theorem ofStatement_of_sameContent (h : s.SameContent t) :
    ofStatement s = (ofStatement t).retarget s.target := by
  obtain ⟨pattern, source, target, ops, group, filter, order, period, limit, stages⟩ := s
  obtain ⟨pattern', source', target', ops', group', filter', order', period', limit', stages'⟩ := t
  obtain ⟨rfl, rfl, rfl, rfl, rfl, rfl, rfl⟩ := h
  unfold ofStatement
  dsimp only
  rw [show ({ source, target, period, group := group.getD [], order, limit } : Plan) =
    retarget target { source, target := target', period, group := group.getD [], order, limit }
    from rfl, foldl_add_retarget]
  rfl

theorem target_ofStatement (s : Statement) : (ofStatement s).target = s.target :=
  congrArg Plan.target (ofStatement_of_sameContent ⟨rfl, rfl, rfl, rfl, rfl, rfl, rfl⟩)

end Plan

/-! ## Code -/

/-- **Queries of statements of one content are equal.** -/
theorem generate_sql_of_sameContent (h : s.SameContent t) :
    s.generate .sql d = t.generate .sql d := by
  show Sql.generate d (Plan.ofStatement s) = Sql.generate d (Plan.ofStatement t)
  rw [Plan.ofStatement_of_sameContent h]
  rfl

/-- Code with its target in front, if it has one. -/
def withTarget (target : Option String) (code : String) : String :=
  match target with
  | some n => n ++ " <- " ++ code
  | none => code

theorem Plan.retarget_none {p : Plan} (hp : p.target = none) : p.retarget none = p := by
  rw [← hp]
  rfl

namespace Pipe

variable {p : Plan}

theorem text_retarget (target : Option String) (x : Script) :
    Script.text { x with target := target } =
      withTarget target (Script.text { x with target := none }) := by
  cases target with
  | none => rfl
  | some n =>
    unfold Script.text withTarget
    dsimp only
    rw [String.intercalate_cons_append]

theorem ofPlan_retarget (target : Option String) :
    Script.ofPlan d (p.retarget target) =
      (Script.ofPlan d p).map fun x => { x with target := target } := by
  refine bind_eq_map fun joins => ?_
  refine bind_eq_map fun preCalcs => ?_
  refine bind_eq_map fun preFilter => ?_
  refine bind_eq_map fun aggregates => ?_
  refine bind_eq_map fun postCalcs => ?_
  refine bind_eq_map fun postFilter => ?_
  exact bind_eq_map fun windows => rfl

/-- A pipe names its target in front and nowhere else. -/
theorem generate_retarget (target : Option String) (hp : p.target = none) :
    generate d (p.retarget target) = (generate d p).map (withTarget target) := by
  have hnone := ofPlan_retarget (d := d) (p := p) none
  rw [Plan.retarget_none hp] at hnone
  unfold generate
  rw [ofPlan_retarget, hnone]
  cases Script.ofPlan d p with
  | error e => rfl
  | ok x => exact congrArg Except.ok (text_retarget target x)

end Pipe

/-- So does a chain on frames. -/
theorem Frame.generate_retarget {p : Plan} (target : Option String) (hp : p.target = none) :
    Frame.generate d (p.retarget target) = (Frame.generate d p).map (withTarget target) := by
  have htable : Frame.Table.ofPlan d (p.retarget target) = Frame.Table.ofPlan d p := rfl
  unfold Frame.generate
  rw [htable, hp]
  cases Frame.Table.ofPlan d p with
  | error e => rfl
  | ok t => cases target <;> rfl

/-- **Scripts of statements of one content are equal, up to the target in front.** -/
theorem generate_script_of_sameContent (h : s.SameContent t) (ht : t.target = none)
    {target : Target} (hscript : target ≠ .sql) :
    s.generate target d = (t.generate target d).map (withTarget s.target) := by
  have hp : (Plan.ofStatement t).target = none := by
    rw [Plan.target_ofStatement, ht]
  cases target with
  | sql => exact absurd rfl hscript
  | dataFramePipe =>
    show Pipe.generate d (Plan.ofStatement s) = _
    rw [Plan.ofStatement_of_sameContent h]
    exact Pipe.generate_retarget s.target hp
  | tabularFrame =>
    show Frame.generate d (Plan.ofStatement s) = _
    rw [Plan.ofStatement_of_sameContent h]
    exact Frame.generate_retarget s.target hp

end DataPhrase
