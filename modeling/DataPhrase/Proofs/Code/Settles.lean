/-
# What settles

Settling an expression looks up its fields and nothing else: under two scopes that give the same for
each of them it gives the same term, and whether there is a term at all does not depend on the
fields (`exists_ofExpr`). A statement has a query exactly if each of its operations and each part of
its filter settles (`exists_generate_iff`), so a statement that is left with fewer of them has one
as well.
-/
import DataPhrase.Proofs.Code.Query
import DataPhrase.Proofs.Plan

namespace DataPhrase

open Code

namespace Code

variable {sc : Scope} {args : List Expr} {ts : List Term}

/-! ## Expressions -/

theorem length_ofExprs (h : Term.ofExprs sc args = .ok ts) : ts.length = args.length :=
  (forall₂_ofExprs h).length_eq.symm

/-- Whether a call has a term depends on the number of its arguments alone. -/
theorem exists_callTerm {n : String} {ts' : List Term} (hl : ts.length = ts'.length) {t : Term}
    (h : callTerm sc n ts = .ok t) : ∃ t', callTerm sc n ts' = .ok t' := by
  obtain ⟨o, ho, h⟩ := bind_eq_ok.mp h
  rw [callTerm, ho]
  cases o with
  | none => exact ⟨_, rfl⟩
  | some x =>
    have hx : applyTemplate n x ts = .ok t := h
    rw [applyTemplate, hl] at hx
    show ∃ t', applyTemplate n x ts' = .ok t'
    rw [applyTemplate]
    cases hm : x.missing? ts'.length with
    | none => exact ⟨_, rfl⟩
    | some i =>
      rw [hm] at hx
      cases hx

mutual

/-- **Whatever the fields stand for, an expression has a term, and the same one if the scopes agree
on each field that it reads.** -/
theorem exists_ofExpr (field : FieldRef → Term) (e : Expr) (t : Term)
    (h : Term.ofExpr sc e = .ok t) :
    ∃ t', Term.ofExpr { sc with field := field } e = .ok t' ∧
      ((∀ r ∈ e.fields, sc.field r = field r) → t' = t) := by
  cases e with
  | literal v => exact ⟨t, h, fun _ => rfl⟩
  | field q n =>
    cases h
    exact ⟨_, rfl, fun hf => (hf (q, n) (List.mem_singleton_self _)).symm⟩
  | metric s n => exact ⟨t, h, fun _ => rfl⟩
  | call n args =>
    obtain ⟨ts, hts, h⟩ := bind_eq_ok.mp h
    obtain ⟨ts', hts', heq⟩ := exists_ofExprs field args ts hts
    have hl : ts.length = ts'.length := (length_ofExprs hts).trans (length_ofExprs hts').symm
    obtain ⟨t', ht'⟩ := exists_callTerm hl h
    refine ⟨t', bind_eq_ok.mpr ⟨ts', hts', ht'⟩, fun hf => ?_⟩
    obtain rfl := heq hf
    exact Except.ok.inj (ht'.symm.trans h)
  | binary op l r =>
    obtain ⟨tl, hl, h⟩ := bind_eq_ok.mp h
    obtain ⟨tr, hr, h⟩ := bind_eq_ok.mp h
    cases h
    obtain ⟨tl', hl', heql⟩ := exists_ofExpr field l tl hl
    obtain ⟨tr', hr', heqr⟩ := exists_ofExpr field r tr hr
    refine ⟨_, bind_eq_ok.mpr ⟨tl', hl', bind_eq_ok.mpr ⟨tr', hr', rfl⟩⟩, fun hf => ?_⟩
    rw [Expr.fields, List.forall_mem_append] at hf
    rw [heql hf.1, heqr hf.2]
  | negate e =>
    obtain ⟨te, he, h⟩ := bind_eq_ok.mp h
    cases h
    obtain ⟨te', he', heq⟩ := exists_ofExpr field e te he
    exact ⟨_, bind_eq_ok.mpr ⟨te', he', rfl⟩, fun hf => by rw [heq hf]⟩
  | star => exact ⟨t, h, fun _ => rfl⟩

theorem exists_ofExprs (field : FieldRef → Term) (es : List Expr) (ts : List Term)
    (h : Term.ofExprs sc es = .ok ts) :
    ∃ ts', Term.ofExprs { sc with field := field } es = .ok ts' ∧
      ((∀ r ∈ Expr.fieldsAll es, sc.field r = field r) → ts' = ts) := by
  cases es with
  | nil => exact ⟨ts, h, fun _ => rfl⟩
  | cons e es =>
    obtain ⟨t, ht, h⟩ := bind_eq_ok.mp h
    obtain ⟨us, hus, h⟩ := bind_eq_ok.mp h
    cases h
    obtain ⟨t', ht', heq⟩ := exists_ofExpr field e t ht
    obtain ⟨us', hus', heqs⟩ := exists_ofExprs field es us hus
    refine ⟨_, bind_eq_ok.mpr ⟨t', ht', bind_eq_ok.mpr ⟨us', hus', rfl⟩⟩, fun hf => ?_⟩
    rw [Expr.fieldsAll, List.forall_mem_append] at hf
    rw [heq hf.1, heqs hf.2]

end

/-! ## Conditions -/

theorem exists_ofComparison (field : FieldRef → Term) {l r : Expr} {op : CompareOp} {x : Cond}
    (h : Cond.ofComparison sc l op r = .ok x) :
    ∃ x', Cond.ofComparison { sc with field := field } l op r = .ok x' := by
  unfold Cond.ofComparison at h ⊢
  split at h
  · obtain ⟨t, ht, -⟩ := bind_eq_ok.mp h
    obtain ⟨t', ht', -⟩ := exists_ofExpr field l t ht
    exact ⟨_, bind_eq_ok.mpr ⟨t', ht', rfl⟩⟩
  · obtain ⟨t, ht, -⟩ := bind_eq_ok.mp h
    obtain ⟨t', ht', -⟩ := exists_ofExpr field l t ht
    exact ⟨_, bind_eq_ok.mpr ⟨t', ht', rfl⟩⟩
  · obtain ⟨tl, hl, h⟩ := bind_eq_ok.mp h
    obtain ⟨tr, hr, -⟩ := bind_eq_ok.mp h
    obtain ⟨tl', hl', -⟩ := exists_ofExpr field l tl hl
    obtain ⟨tr', hr', -⟩ := exists_ofExpr field r tr hr
    exact ⟨_, bind_eq_ok.mpr ⟨tl', hl', bind_eq_ok.mpr ⟨tr', hr', rfl⟩⟩⟩

mutual

/-- Whatever the fields stand for, a condition settles. -/
theorem exists_ofCondition (field : FieldRef → Term) (c : Condition) (x : Cond)
    (h : Cond.ofCondition sc c = .ok x) :
    ∃ x', Cond.ofCondition { sc with field := field } c = .ok x' := by
  cases c with
  | comparison l op r => exact exists_ofComparison field h
  | logical op cs =>
    obtain ⟨xs, hxs, -⟩ := bind_eq_ok.mp h
    obtain ⟨xs', hxs'⟩ := exists_ofConditions field cs xs hxs
    exact ⟨_, bind_eq_ok.mpr ⟨xs', hxs', rfl⟩⟩
  | not c =>
    obtain ⟨y, hy, -⟩ := bind_eq_ok.mp h
    obtain ⟨y', hy'⟩ := exists_ofCondition field c y hy
    exact ⟨_, bind_eq_ok.mpr ⟨y', hy', rfl⟩⟩
  | call n args =>
    obtain ⟨ts, hts, h⟩ := bind_eq_ok.mp h
    obtain ⟨t, ht, -⟩ := bind_eq_ok.mp h
    obtain ⟨ts', hts', -⟩ := exists_ofExprs field args ts hts
    have hl : ts.length = ts'.length := (length_ofExprs hts).trans (length_ofExprs hts').symm
    obtain ⟨t', ht'⟩ := exists_callTerm hl ht
    exact ⟨_, bind_eq_ok.mpr ⟨ts', hts', bind_eq_ok.mpr ⟨t', ht', rfl⟩⟩⟩

theorem exists_ofConditions (field : FieldRef → Term) (cs : List Condition) (xs : List Cond)
    (h : Cond.ofConditions sc cs = .ok xs) :
    ∃ xs', Cond.ofConditions { sc with field := field } cs = .ok xs' := by
  cases cs with
  | nil => exact ⟨xs, h⟩
  | cons c cs =>
    obtain ⟨x, hx, h⟩ := bind_eq_ok.mp h
    obtain ⟨ys, hys, -⟩ := bind_eq_ok.mp h
    obtain ⟨x', hx'⟩ := exists_ofCondition field c x hx
    obtain ⟨ys', hys'⟩ := exists_ofConditions field cs ys hys
    exact ⟨_, bind_eq_ok.mpr ⟨x', hx', bind_eq_ok.mpr ⟨ys', hys', rfl⟩⟩⟩

end

end Code

/-! ## Parts of queries -/

namespace Sql

variable {d : Snapshot} {as as' : Aliases} {p : Plan}

/-- Under definitions that agree on each field that an aggregate reads, it has the same term. -/
theorem exists_aggregateTerm (as' : Aliases) {a : Aggregate} {t : Term}
    (h : aggregateTerm (scope d as) a = .ok t) : ∃ t', aggregateTerm (scope d as') a = .ok t' ∧
      ((∀ r ∈ a.field.fields, as.field r = as'.field r) → t' = t) := by
  obtain ⟨e, he, h⟩ := bind_eq_ok.mp h
  obtain ⟨e', he', heq⟩ := exists_ofExpr as'.field a.field e he
  have hpercentile {x : Number} {t : Term} (hx : percentileTerm (scope d as) e x = .ok t) :
      ∃ t', percentileTerm (scope d as') e' x = .ok t' := by
    obtain ⟨o, ho, hx⟩ := bind_eq_ok.mp hx
    have ho' : functionTemplate (scope d as') "percentile" = .ok o := ho
    rw [percentileTerm, ho']
    cases o with
    | none => cases hx
    | some y =>
      dsimp only [bind, Except.bind] at hx ⊢
      split at hx
      · cases hx
      · exact ⟨_, rfl⟩
  have hsome : ∃ t', aggregateTerm (scope d as') a = .ok t' := by
    obtain ⟨n, f, x⟩ := a
    cases f with
    | median =>
      obtain ⟨t', ht'⟩ := hpercentile h
      exact ⟨t', bind_eq_ok.mpr ⟨e', he', ht'⟩⟩
    | percentile y =>
      obtain ⟨t', ht'⟩ := hpercentile h
      exact ⟨t', bind_eq_ok.mpr ⟨e', he', ht'⟩⟩
    | _ => exact ⟨_, bind_eq_ok.mpr ⟨e', he', rfl⟩⟩
  obtain ⟨t', ht'⟩ := hsome
  refine ⟨t', ht', fun hf => ?_⟩
  obtain rfl := heq hf
  obtain ⟨e', he'', ht'⟩ := bind_eq_ok.mp ht'
  obtain rfl := Except.ok.inj (he''.symm.trans he')
  exact Except.ok.inj (ht'.symm.trans h)

theorem exists_defineCalcs {cs : List Calc}
    (h : ∀ c ∈ cs, ∃ t, Term.ofExpr (scope d []) c.expression = .ok t) :
    ∃ as', defineCalcs d as cs = .ok as' := by
  induction cs generalizing as with
  | nil => exact ⟨as, rfl⟩
  | cons c cs ih =>
    rw [List.forall_mem_cons] at h
    obtain ⟨t, ht⟩ := h.1
    obtain ⟨t', ht', -⟩ := exists_ofExpr as.field c.expression t ht
    obtain ⟨as', has⟩ := ih h.2
    exact ⟨as', defineCalcs_cons.mpr ⟨t', ht', has⟩⟩

theorem exists_defineAggregates {l : List Aggregate}
    (h : ∀ a ∈ l, ∃ t, aggregateTerm (scope d []) a = .ok t) :
    ∃ as', defineAggregates d as l = .ok as' := by
  induction l generalizing as with
  | nil => exact ⟨as, rfl⟩
  | cons a l ih =>
    rw [List.forall_mem_cons] at h
    obtain ⟨t, ht⟩ := h.1
    obtain ⟨t', ht', -⟩ := exists_aggregateTerm as ht
    obtain ⟨as', has⟩ := ih h.2
    exact ⟨as', defineAggregates_cons.mpr ⟨t', ht', has⟩⟩

theorem settles_of_defineCalcs {cs : List Calc} (h : defineCalcs d as cs = .ok as') :
    ∀ c ∈ cs, ∃ t, Term.ofExpr (scope d []) c.expression = .ok t := by
  induction cs generalizing as with
  | nil => exact fun c hc => nomatch hc
  | cons c cs ih =>
    obtain ⟨t, ht, h⟩ := defineCalcs_cons.mp h
    obtain ⟨t', ht', -⟩ := exists_ofExpr (Aliases.field []) c.expression t ht
    exact List.forall_mem_cons.mpr ⟨⟨t', ht'⟩, ih h⟩

theorem settles_of_defineAggregates {l : List Aggregate} (h : defineAggregates d as l = .ok as') :
    ∀ a ∈ l, ∃ t, aggregateTerm (scope d []) a = .ok t := by
  induction l generalizing as with
  | nil => exact fun a ha => nomatch ha
  | cons a l ih =>
    obtain ⟨t, ht, h⟩ := defineAggregates_cons.mp h
    obtain ⟨t', ht', -⟩ := exists_aggregateTerm [] ht
    exact List.forall_mem_cons.mpr ⟨⟨t', ht'⟩, ih h⟩

/-- Whatever aliases stand for, a window settles. -/
theorem exists_windowTerm (as' : Aliases) {w : Window} {t : WindowTerm} (h : windowTerm d as w = .ok t) :
    ∃ t', windowTerm d as' w = .ok t' := by
  obtain ⟨c, hc, -⟩ := bind_eq_ok.mp h
  have hfield {e : Term} (he : windowField (scope d as) w = .ok e) :
      ∃ e', windowField (scope d as') w = .ok e' := by
    rw [windowField] at he ⊢
    split at he
    · next x _ =>
      obtain ⟨e', he', -⟩ := exists_ofExpr as'.field x e he
      exact ⟨e', he'⟩
    · cases he
  have hcall : ∃ c', windowCall (scope d as') w = .ok c' := by
    obtain ⟨n, f, x, pb, ob⟩ := w
    cases f with
    | cumulativeSum =>
      obtain ⟨e, he, -⟩ := map_eq_ok.mp hc
      obtain ⟨e', he'⟩ := hfield he
      exact ⟨_, map_eq_ok.mpr ⟨e', he', rfl⟩⟩
    | lag k =>
      obtain ⟨e, he, -⟩ := map_eq_ok.mp hc
      obtain ⟨e', he'⟩ := hfield he
      exact ⟨_, map_eq_ok.mpr ⟨e', he', rfl⟩⟩
    | lead k =>
      obtain ⟨e, he, -⟩ := map_eq_ok.mp hc
      obtain ⟨e', he'⟩ := hfield he
      exact ⟨_, map_eq_ok.mpr ⟨e', he', rfl⟩⟩
    | _ => exact ⟨_, rfl⟩
  obtain ⟨c', hc'⟩ := hcall
  exact ⟨_, bind_eq_ok.mpr ⟨c', hc', rfl⟩⟩

end Sql

/-! ## Queries -/

/-- The names of an operation settle in a query. -/
def Operation.Resolves (d : Snapshot) : Operation → Prop
  | .calculate e _ => ∃ t, Term.ofExpr (Sql.scope d []) e = .ok t
  | .aggregate f e a => ∃ t, Sql.aggregateTerm (Sql.scope d []) ⟨a, f, e⟩ = .ok t
  | .window f e pb ob a => ∃ t, Sql.windowTerm d [] ⟨a, f, e, pb, ob⟩ = .ok t
  | .join _ c => ∃ x, Cond.ofCondition (Sql.scope d []) c = .ok x
  | .select _ => True

/-- The names of the operations and of the parts of the filter settle in a query. -/
structure Plan.Resolves (d : Snapshot) (p : Plan) : Prop where
  operations : ∀ op ∈ p.operations, op.Resolves d
  filters : ∀ c ∈ p.preFilter ++ p.postFilter, ∃ x, Cond.ofCondition (Sql.scope d []) c = .ok x

namespace Sql

variable {d : Snapshot} {p : Plan} {q : Query} {rows groups as : Aliases}
  {windows : List (String × WindowTerm)}

theorem Emits.resolves (h : Emits d p q rows groups as windows) : p.Resolves d where
  operations := by
    intro op hop
    simp only [Plan.operations, List.mem_append, List.mem_map] at hop
    rcases hop with (((⟨j, hj, rfl⟩ | ⟨c, hc, rfl⟩) | ⟨a, ha, rfl⟩) | ⟨c, hc, rfl⟩) | ⟨w, hw, rfl⟩
    · obtain ⟨x, -, hx⟩ := exists_mem_of_forall₂ h.joins.flip hj
      exact exists_ofCondition (Aliases.field []) j.condition _ hx
    · exact settles_of_defineCalcs h.calcs c hc
    · exact settles_of_defineAggregates h.aggregates a ha
    · exact settles_of_defineCalcs h.lateCalcs c hc
    · obtain ⟨x, -, hx⟩ := exists_mem_of_forall₂ h.terms.flip hw
      exact exists_windowTerm [] hx.1
  filters := by
    intro c hc
    rcases List.mem_append.mp hc with hc | hc
    · obtain ⟨x, -, hx⟩ := exists_mem_of_forall₂ h.filters.flip hc
      exact exists_ofCondition (Aliases.field []) c x hx
    · obtain ⟨x, -, hx⟩ := exists_mem_of_forall₂ h.having.flip hc
      exact exists_ofCondition (Aliases.field []) c x hx

/-- **A plan has a query exactly if its operations and filters settle.** -/
theorem exists_ofPlan_iff : (∃ q, Query.ofPlan d p = .ok q) ↔ p.Resolves d := by
  constructor
  · rintro ⟨q, hq⟩
    obtain ⟨rows, groups, as, windows, h⟩ := exists_emits hq
    exact h.resolves
  · intro h
    obtain ⟨rows, hrows⟩ : ∃ rows, defineCalcs d [] p.preCalcs = .ok rows :=
      exists_defineCalcs fun c hc => h.operations _ (Plan.mem_operations_of_preCalcs hc)
    obtain ⟨groups, hgroups⟩ : ∃ groups, defineAggregates d rows p.aggregates = .ok groups :=
      exists_defineAggregates fun a ha => h.operations _ (Plan.mem_operations_of_aggregates ha)
    obtain ⟨as, has⟩ : ∃ as, defineCalcs d groups p.postCalcs = .ok as :=
      exists_defineCalcs fun c hc => h.operations _ (Plan.mem_operations_of_postCalcs hc)
    have hcond (c : Condition) (hc : ∃ x, Cond.ofCondition (scope d []) c = .ok x) :
        ∃ x, Cond.ofCondition (scope d as) c = .ok x := by
      obtain ⟨x, hx⟩ := hc
      exact exists_ofCondition as.field c x hx
    obtain ⟨terms, hterms⟩ : ∃ l, p.windows.mapM (fun w =>
        (windowTerm d as w).map fun t => (w.aliasName, t)) = .ok l := by
      refine exists_mapM fun w hw => ?_
      obtain ⟨t, ht⟩ := h.operations _ (Plan.mem_operations_of_windows hw)
      obtain ⟨t', ht'⟩ := exists_windowTerm as ht
      exact ⟨_, map_eq_ok.mpr ⟨t', ht', rfl⟩⟩
    obtain ⟨joins, hjoins⟩ : ∃ l, p.joins.mapM (fun j =>
        (Cond.ofCondition (scope d as) j.condition).map fun c => (j.source, c)) = .ok l := by
      refine exists_mapM fun j hj => ?_
      obtain ⟨x, hx⟩ := hcond j.condition (h.operations _ (Plan.mem_operations_of_joins hj))
      exact ⟨_, map_eq_ok.mpr ⟨x, hx, rfl⟩⟩
    obtain ⟨hpre, hpost⟩ := List.forall_mem_append.mp h.filters
    obtain ⟨filters, hfilters⟩ := exists_mapM fun c hc => hcond c (hpre c hc)
    obtain ⟨having, hhaving⟩ := exists_mapM fun c hc => hcond c (hpost c hc)
    refine ⟨_, bind_eq_ok.mpr ⟨rows, hrows, bind_eq_ok.mpr ⟨groups, hgroups, bind_eq_ok.mpr
      ⟨as, has, bind_eq_ok.mpr ⟨_, bind_eq_ok.mpr ⟨terms, hterms, rfl⟩, bind_eq_ok.mpr
        ⟨joins, hjoins, bind_eq_ok.mpr ⟨filters, hfilters, bind_eq_ok.mpr
          ⟨having, hhaving, rfl⟩⟩⟩⟩⟩⟩⟩⟩

end Sql

/-- **A statement has a query exactly if its operations and the parts of its filter settle.** -/
theorem exists_generate_iff {d : Snapshot} {s : Statement} :
    (∃ code, Sql.generate d (Plan.ofStatement s) = .ok code) ↔
      (∀ op ∈ s.operations, op.Resolves d) ∧
        ∀ c ∈ s.filterParts, ∃ x, Cond.ofCondition (Sql.scope d []) c = .ok x := by
  have hops : (∀ op ∈ (Plan.ofStatement s).operations, op.Resolves d) ↔
      ∀ op ∈ s.operations, op.Resolves d := by
    have hmem (op : Operation) := (Plan.operations_ofStatement s).mem_iff (a := op)
    simp only [hmem, List.mem_filter]
    refine forall_congr' fun op => ⟨fun h hop => ?_, fun h hop => h hop.1⟩
    cases op with
    | select fields => trivial
    | _ => exact h ⟨hop, rfl⟩
  have hfilters (c : Condition) := (Plan.filters_perm s).mem_iff (a := c)
  have hgenerate : (∃ code, Sql.generate d (Plan.ofStatement s) = .ok code) ↔
      ∃ q, Sql.Query.ofPlan d (Plan.ofStatement s) = .ok q := by
    simp only [Sql.generate_eq_ok]
    exact ⟨fun ⟨_, q, hq, _⟩ => ⟨q, hq⟩, fun ⟨q, hq⟩ => ⟨_, q, hq, rfl⟩⟩
  rw [hgenerate, Sql.exists_ofPlan_iff]
  constructor
  · intro h
    exact ⟨hops.mp h.operations, fun c hc => h.filters c ((hfilters c).mpr hc)⟩
  · rintro ⟨ho, hf⟩
    exact ⟨hops.mpr ho, fun c hc => hf c ((hfilters c).mp hc)⟩

end DataPhrase
