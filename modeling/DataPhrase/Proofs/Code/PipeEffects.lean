/-
# Columns along a pipe

The verbs of a pipe have the effects of its plan, group by group (`Performs`). A verb can depend on
the columns by which the rows are grouped, so every group of verbs starts and ends with rows that
are not grouped.
-/
import DataPhrase.Code.Pipe
import DataPhrase.Proofs.Code.Effects

namespace DataPhrase

open Code Script Rows

/-! ## Effects of verbs -/

namespace Pipe

variable {d : Snapshot} {p : Plan} {c : Columns} {sc : Scope} {w : Window}

/-- The columns that a window call reads. -/
def WindowCall.names : WindowCall → List String
  | .rowNumber => []
  | .ranking _ key => [key.1]
  | .runningSum e | .lag e _ | .lead e _ => e.bareNames

/-- The columns by which the rows are grouped behind a verb. Aggregation drops the last one or
all. -/
def Step.grouping (grouped : List String) : Step → List String
  | .groupBy keys => keys
  | .summarise _ drops => if drops then [] else grouped.dropLast
  | .ungroup => []
  | _ => grouped

/-- The effects of a verb on rows that are grouped by some columns. The columns of one verb are
computed in turn, and those of an aggregation replace all but the groups. -/
def Step.effects (grouped : List String) : Step → List ColumnEffect
  | .innerJoin _ pairs => [.widen (pairs.map Prod.fst)]
  | .mutate columns => columns.map .ofColumn
  | .filter conditions period =>
    [.read (conditions.flatMap Cond.bareNames ++ (period.map Prod.fst).toList)]
  | .groupBy keys => [.read keys]
  | .summarise columns _ =>
    columns.map .ofColumn ++ [.close (grouped ++ columns.map Prod.fst) grouped]
  | .distinct keys => [.close keys keys]
  | .arrange keys byGroup => [.read (keys.map Prod.fst ++ if byGroup then grouped else [])]
  | .window a call => [.extend a call.names]
  | .select names => [.close names names]
  | .ungroup | .head _ => []

/-- The effects of verbs in turn, on rows that are grouped by some columns. -/
def effectsFrom : List String → List Step → List ColumnEffect
  | _, [] => []
  | grouped, st :: r => st.effects grouped ++ effectsFrom (st.grouping grouped) r

/-- The effects of a pipe. -/
def Script.effects (s : Script) : List ColumnEffect :=
  effectsFrom [] s.steps

/-- Verbs in a row have their effects in a row, the later ones in the groups the earlier ones left.
-/
theorem effectsFrom_append (grouped : List String) (l r : List Step) :
    effectsFrom grouped (l ++ r) =
      effectsFrom grouped l ++ effectsFrom (l.foldl Step.grouping grouped) r := by
  induction l generalizing grouped with
  | nil => rfl
  | cons st l ih =>
    rw [List.cons_append, effectsFrom, effectsFrom, ih, List.foldl_cons, List.append_assoc]

/-! ## Groups of verbs -/

/-- On rows that are not grouped, the verbs have the effects, and they leave the rows so. -/
structure Performs (steps : List Step) (es : List ColumnEffect) : Prop where
  effects : SameEffects (effectsFrom [] steps) es
  grouping : steps.foldl Step.grouping [] = []

theorem Performs.nil : Performs [] [] :=
  ⟨SameEffects.refl [], rfl⟩

/-- Verbs in turn have their effects in turn. -/
theorem Performs.append {l r : List Step} {es fs : List ColumnEffect} (hl : Performs l es)
    (hr : Performs r fs) : Performs (l ++ r) (es ++ fs) := by
  refine ⟨?_, ?_⟩
  · rw [effectsFrom_append, hl.grouping]
    exact hl.effects.append hr.effects
  · rw [List.foldl_append, hl.grouping]
    exact hr.grouping

/-- A pipe is admitted where the effects of its verbs are. -/
theorem Performs.admits_iff {s : Script} {es : List ColumnEffect} (h : Performs s.steps es) :
    (Shape.opened []).Admits s.effects ↔ (Shape.opened []).Admits es := by
  have hsame := h.effects (.opened []) []
  rwa [List.append_nil, List.append_nil] at hsame

/-- Mutating has the effect of each column. -/
theorem performs_mutateSteps (columns : List (String × Term)) :
    Performs (mutateSteps columns) (columns.map .ofColumn) := by
  cases columns with
  | nil => exact Performs.nil
  | cons c columns =>
    refine ⟨?_, rfl⟩
    show SameEffects (_ ++ []) _
    rw [List.append_nil]
    exact SameEffects.refl _

/-- Filtering reads the names in its conditions. -/
theorem performs_filterSteps (conditions : List Cond) (period : Option (String × Period)) :
    Performs (filterSteps conditions period)
      [.read (conditions.flatMap Cond.bareNames ++ (period.map Prod.fst).toList)] := by
  rw [filterSteps]
  split
  · next h =>
    rw [Bool.and_eq_true, List.isEmpty_iff, Option.isNone_iff_eq_none] at h
    obtain ⟨rfl, rfl⟩ := h
    exact ⟨SameEffects.read_nil, rfl⟩
  · exact ⟨SameEffects.refl _, rfl⟩

/-- The effects of the verbs that aggregate. -/
def reduction (keys : List String) (columns : List (String × Term)) : List ColumnEffect :=
  if columns.isEmpty then if keys.isEmpty then [] else [.close keys keys]
  else .read keys :: columns.map .ofColumn ++ [.close (keys ++ columns.map Prod.fst) keys]

/-- Aggregating leaves the keys and the aggregates. -/
theorem performs_aggregateSteps (keys : List String) (columns : List (String × Term)) :
    Performs (aggregateSteps keys columns) (reduction keys columns) := by
  rw [aggregateSteps, reduction]
  split
  · split
    · exact Performs.nil
    · exact ⟨SameEffects.refl _, rfl⟩
  · split
    · next h =>
      rw [List.isEmpty_iff] at h
      subst h
      refine ⟨?_, rfl⟩
      show SameEffects (_ ++ []) _
      rw [List.append_nil]
      exact SameEffects.read_nil.append (SameEffects.refl _)
    · refine ⟨?_, rfl⟩
      show SameEffects (.read keys :: (_ ++ [])) _
      rw [List.append_nil]
      exact SameEffects.refl _

/-! ## Windows -/

/-- A window call reads the field it is taken of, if it has one. -/
theorem names_windowCall (hsc : KeepsNames sc) (hw : c.written = columnOf) {call : WindowCall}
    (h : windowCall c sc w = .ok call) :
    call.names = if w.function.isRanking then w.orderBy.map fun o => columnOf o.field
      else (w.field.map Expr.fieldNames).getD [] := by
  rw [windowCall] at h
  split at h
  · next hf =>
    obtain ⟨t, ht, rfl⟩ := map_eq_ok.mp h
    rw [hf]
    exact names_windowField hsc ht
  · next n hf =>
    obtain ⟨t, ht, rfl⟩ := map_eq_ok.mp h
    rw [hf]
    exact names_windowField hsc ht
  · next n hf =>
    obtain ⟨t, ht, rfl⟩ := map_eq_ok.mp h
    rw [hf]
    exact names_windowField hsc ht
  · next hsum hlag hlead =>
    -- All that is left are ranks, which have one key, or none if they number the rows.
    have hranks : w.function.isRanking = true := by
      cases hf : w.function with
      | cumulativeSum => exact absurd hf hsum
      | lag n => exact absurd hf (hlag n)
      | lead n => exact absurd hf (hlead n)
      | _ => rfl
    rw [hranks, if_pos rfl]
    split at h
    · next k hk =>
      cases h
      rw [hk, WindowCall.names, keyOf, hw]
      rfl
    · split at h
      · next hkeys =>
        cases h
        rw [hkeys.2]
        rfl
      · cases h

/-- The effects of the verbs of a window, whether it has groups and whether it sorts the rows. -/
theorem effectsFrom_window (keys : List String) (order : List Key) (a : String) (call : WindowCall)
    (grouped sorted : Bool) :
    effectsFrom [] ((if grouped then [Step.groupBy keys] else []) ++
        (if sorted then [Step.arrange order grouped] else []) ++ [Step.window a call] ++
        if grouped then [Step.ungroup] else []) =
      (if grouped then [ColumnEffect.read keys] else []) ++
        (if sorted then [ColumnEffect.read (order.map Prod.fst ++ if grouped then keys else [])]
          else []) ++
        [ColumnEffect.extend a call.names] := by
  cases grouped <;> cases sorted <;> rfl

/-- To group, to sort and to compute reads in turn what a single step can read at once; what is
empty is not read at all. -/
theorem sameEffects_window (keys order names : List String) (a : String) :
    SameEffects ((if !keys.isEmpty then [ColumnEffect.read keys] else []) ++
        (if !order.isEmpty then [ColumnEffect.read (order ++ if !keys.isEmpty then keys else [])]
          else []) ++
        [ColumnEffect.extend a names]) [.extend a (keys ++ order ++ names)] := by
  intro s rest
  have hrest : s.Admits ([.extend a (keys ++ order ++ names)] ++ rest) ↔
      (∀ n ∈ keys, s.contains n = true) ∧ (∀ n ∈ order, s.contains n = true) ∧
        (∀ n ∈ names, s.contains n = true) ∧ (s.add a).Admits rest := by
    rw [List.singleton_append, Shape.admits_extend, List.forall_mem_append, List.forall_mem_append,
      and_assoc, and_assoc]
  rw [hrest]
  cases keys with
  | nil => cases order <;> simp
  | cons k keys =>
    cases order with
    | nil => simp
    | cons o order =>
      -- The rows are sorted by the keys as well, which have been read by then.
      have hkeys (h : ∀ n ∈ k :: keys, s.contains n = true) :
          (∀ n ∈ o :: order ++ k :: keys, s.contains n = true) ↔
            ∀ n ∈ o :: order, s.contains n = true := by
        rw [List.forall_mem_append]
        exact and_iff_left h
      exact and_congr_right fun h => and_congr (hkeys h) Iff.rfl

/-- The verbs of a window read what the window reads: the keys of its groups, those of its order
unless it ranks by them, and its field. -/
theorem performs_windowSteps (hsc : KeepsNames sc) (hw : c.written = columnOf) {steps : List Step}
    (h : windowSteps c sc w = .ok steps) : Performs steps [w.effect] := by
  obtain ⟨call, hcall, h⟩ := bind_eq_ok.mp h
  have hnames := names_windowCall hsc hw hcall
  cases h
  refine ⟨?_, ?_⟩
  · rw [effectsFrom_window, map_fst_keys (keyOf c) (fun _ => rfl) hw, hw, Window.effect,
      Window.names]
    cases hr : w.function.isRanking with
    | true =>
      have hsame := sameEffects_window (w.partitionBy.map columnOf) [] call.names w.aliasName
      rw [hnames, hr] at hsame ⊢
      simpa using hsame
    | false =>
      have hsame := sameEffects_window (w.partitionBy.map columnOf)
        (w.orderBy.map fun o => columnOf o.field) call.names w.aliasName
      rw [hnames, hr] at hsame ⊢
      simpa using hsame
  · cases w.partitionBy <;> cases w.function.isRanking <;> cases w.orderBy <;> rfl

/-- Windows have the effects of their columns in order. -/
theorem performs_windows (hsc : KeepsNames sc) (hw : c.written = columnOf) {ws : List Window}
    {steps : List (List Step)} (h : ws.mapM (windowSteps c sc) = .ok steps) :
    Performs steps.flatten (ws.map Window.effect) := by
  have hpairs := forall₂_of_mapM h
  clear h
  induction hpairs with
  | nil => exact Performs.nil
  | cons hsteps _ ih => exact (performs_windowSteps hsc hw hsteps).append ih

/-! ## Pipes of plans -/

/-- Selecting closes the rows to the columns. -/
theorem performs_select (hw : c.written = columnOf) (select : Option (List String)) :
    Performs (select.map fun names => Step.select (names.map c.written)).toList
      (select.map fun names => .close (names.map columnOf) (names.map columnOf)).toList := by
  rw [hw]
  cases select with
  | none => exact Performs.nil
  | some names => exact ⟨SameEffects.refl _, rfl⟩

/-- Sorting reads its keys. -/
theorem performs_order (hw : c.written = columnOf) (order : List OrderItem) :
    Performs (if order.isEmpty then [] else [.arrange (order.map (keyOf c)) false])
      [.read (order.map fun o => columnOf o.field)] := by
  cases order with
  | nil => exact ⟨SameEffects.read_nil, rfl⟩
  | cons o order =>
    refine ⟨?_, rfl⟩
    rw [← map_fst_keys (keyOf c) (fun _ => rfl) hw]
    show SameEffects [.read (_ ++ [])] _
    rw [List.append_nil]
    exact SameEffects.refl _

/-- A limit has no effect on columns. -/
theorem performs_limit (limit : Option Nat) : Performs (limit.map Step.head).toList [] := by
  cases limit with
  | none => exact Performs.nil
  | some n => exact ⟨SameEffects.refl _, rfl⟩

/-- From the columns of a source the verbs that aggregate go on to those that they leave. -/
theorem admits_reduction {keys : List String} {columns : List (String × Term)}
    {rest : List ColumnEffect} :
    (Shape.opened []).Admits (reduction keys columns ++ rest) ↔
      (reducedShape keys columns).Admits rest := by
  cases columns with
  | nil =>
    cases keys with
    | nil => exact Iff.rfl
    | cons k keys =>
      have hshape : reducedShape (k :: keys) [] = .closed (k :: keys) :=
        congrArg Shape.closed (List.append_nil _)
      rw [hshape]
      exact and_iff_right fun _ _ => rfl
  | cons c columns =>
    have hopen : ∀ e ∈ ColumnEffect.read keys :: (c :: columns).map .ofColumn, e.IsOpen :=
      List.forall_mem_cons.mpr ⟨trivial, isOpen_ofColumn (c :: columns)⟩
    show (Shape.opened []).Admits ((.read keys :: (c :: columns).map .ofColumn ++ [_]) ++ rest) ↔ _
    rw [List.append_assoc, Shape.admits_opened_append hopen]
    exact and_iff_right fun _ _ => rfl

/-- **Without joins a pipe is admitted exactly if what its plan does behind the aggregation is.** -/
theorem admits_iff (hj : p.joins = []) (hd : ∀ source n, d.hasColumn source n = false)
    {script : Script} (h : Script.ofPlan d p = .ok script) :
    (Shape.opened []).Admits script.effects ↔ p.lateShape.Admits p.lateEffects := by
  have hsc := keepsNames_ofPlan hj hd .dataFramePipe
  have hw := written_ofPlan hj hd
  rw [Script.ofPlan, hj] at h
  obtain ⟨joins, hjoins, h⟩ := bind_eq_ok.mp h
  obtain ⟨preCalcs, -, h⟩ := bind_eq_ok.mp h
  obtain ⟨preFilter, -, h⟩ := bind_eq_ok.mp h
  obtain ⟨aggregates, hagg, h⟩ := bind_eq_ok.mp h
  obtain ⟨postCalcs, hpost, h⟩ := bind_eq_ok.mp h
  obtain ⟨postFilter, hfilter, h⟩ := bind_eq_ok.mp h
  obtain ⟨windows, hwin, h⟩ := bind_eq_ok.mp h
  cases hjoins
  cases h
  have hrows := (Performs.nil.append (performs_mutateSteps preCalcs)).append
    (performs_filterSteps preFilter (p.period.map fun t =>
      ((Columns.ofPlan d p).written t.field, t)))
  have hgroups := (hrows.append (performs_aggregateSteps (p.group.map (Columns.ofPlan d p).written)
    aggregates)).append (performs_mutateSteps postCalcs)
  have hwindows := (hgroups.append (performs_filterSteps postFilter none)).append
    (performs_windows hsc hw hwin)
  have hall := ((hwindows.append (performs_select hw p.select)).append
    (performs_order hw p.order)).append (performs_limit p.limit)
  rw [effects_calcColumns hsc hpost, names_mapM_ofCondition hsc hfilter] at hall
  refine hall.admits_iff.trans ?_
  -- Only what aggregates ends the columns of the source.
  rw [hw, ← reducedShape_eq hagg, ← admits_reduction, Plan.lateEffects]
  simp only [List.append_assoc, List.nil_append, List.append_nil, List.cons_append, Option.map_none,
    Option.toList_none, Shape.admits_opened_append (isOpen_ofColumn preCalcs)]
  exact Shape.admits_opened_cons (e := .read _) trivial

end Pipe

end DataPhrase
