/-
# Columns along a chain

The steps of a chain have the effects of its plan: a step adds its effect to those of the table to
which it is applied (`Follows`).
-/
import DataPhrase.Code.Frame
import DataPhrase.Proofs.Code.Effects

namespace DataPhrase

open Code Script Rows

/-! ## Effects of steps -/

namespace Frame

variable {d : Snapshot} {p : Plan} {c : Columns} {sc : Scope} {w : Window} {t : Table}

/-- The columns that conditions on rows read. -/
def Tests.names (t : Tests) : List String :=
  t.conditions.flatMap Cond.bareNames ++ (t.period.map Prod.fst).toList

/-- The columns that a window call reads. -/
def WindowCall.names : WindowCall → List String
  | .rowNumber => []
  | .runningSum e | .lag e _ | .lead e _ => e.bareNames

/-- The effects of the steps of a table in turn. The columns of one aggregation do not read each
other. -/
def Table.effects : Table → List ColumnEffect
  | .source _ => []
  | .merge t _ left _ => t.effects ++ [.widen left]
  | .copy t | .head t _ => t.effects
  | .assign t a e => t.effects ++ [.extend a e.bareNames]
  | .rows t tests => t.effects ++ [.read tests.names]
  | .aggregate t tests columns keys =>
    t.effects ++ [.close (keys ++ columns.map Prod.fst)
      (tests.names ++ columns.flatMap (fun c => c.2.bareNames) ++ keys)]
  | .unique t tests keys => t.effects ++ [.close keys (tests.names ++ keys)]
  | .window t sortKeys a call keys =>
    t.effects ++ [.extend a (keys ++ sortKeys.map Prod.fst ++ call.names)]
  | .project t names => t.effects ++ [.close names names]
  | .order t keys => t.effects ++ [.read (keys.map Prod.fst)]

/-! ## Tables that go on from others -/

/-- A table has the effects of another and then some more. -/
def Follows (t : Table) (es : List ColumnEffect) (t' : Table) : Prop :=
  SameEffects t'.effects (t.effects ++ es)

theorem Follows.of_eq {t' : Table} {es : List ColumnEffect} (h : t'.effects = t.effects ++ es) :
    Follows t es t' := by
  rw [Follows, h]
  exact SameEffects.refl _

/-- A table that is left alone reads nothing. -/
theorem Follows.read_nil (t : Table) : Follows t [.read []] t := by
  have h := SameEffects.append_left t.effects SameEffects.read_nil
  rwa [List.append_nil] at h

/-- A table that goes on from one that goes on from another goes on from it. -/
theorem Follows.trans {t₁ t₂ t₃ : Table} {es fs : List ColumnEffect} (h : Follows t₁ es t₂)
    (h' : Follows t₂ fs t₃) : Follows t₁ (es ++ fs) t₃ := by
  refine SameEffects.trans h' ?_
  rw [← List.append_assoc]
  exact SameEffects.append h (SameEffects.refl fs)

/-- Assigning columns has the effect of each in order. -/
theorem effects_assigned (columns : List (String × Term)) (t : Table) :
    (assigned columns t).effects = t.effects ++ columns.map ColumnEffect.ofColumn := by
  rw [assigned]
  induction columns generalizing t with
  | nil => exact (List.append_nil _).symm
  | cons c columns ih =>
    rw [List.foldl_cons, ih, Table.effects, List.append_assoc]
    rfl

/-- Filtering reads the names in its conditions. -/
theorem follows_filtered (conditions : List Cond) (t : Table) :
    Follows t [.read (conditions.flatMap Cond.bareNames)]
      (if conditions.isEmpty then t else .rows t ⟨conditions, none⟩) := by
  cases conditions with
  | nil => exact Follows.read_nil t
  | cons c conditions =>
    refine Follows.of_eq ?_
    show t.effects ++ [.read (_ ++ [])] = _
    rw [List.append_nil]

/-- From the columns of a source the steps that keep or aggregate rows go on to those that they
leave. -/
theorem admits_reduced {tests : Tests} {columns : List (String × Term)} {keys : List String}
    (h : ∀ e ∈ t.effects, e.IsOpen) {rest : List ColumnEffect} :
    (Shape.opened []).Admits ((reduced tests columns keys t).effects ++ rest) ↔
      (reducedShape keys columns).Admits rest := by
  have hstep (e : ColumnEffect) : (Shape.opened []).Admits (t.effects ++ [e] ++ rest) ↔
      (Shape.opened []).Admits (e :: rest) := by
    rw [List.append_assoc]
    exact Shape.admits_opened_append h
  cases columns with
  | cons c columns => exact (hstep _).trans (and_iff_right fun _ _ => rfl)
  | nil =>
    cases keys with
    | cons k keys =>
      have hshape : reducedShape (k :: keys) [] = .closed (k :: keys) :=
        congrArg Shape.closed (List.append_nil _)
      rw [hshape]
      exact (hstep _).trans (and_iff_right fun _ _ => rfl)
    | nil =>
      show (Shape.opened []).Admits
        ((if tests.text.isEmpty then t else .rows t tests).effects ++ rest) ↔
          (Shape.opened []).Admits rest
      split
      · exact Shape.admits_opened_append h
      · exact (hstep _).trans (and_iff_right fun _ _ => rfl)

/-! ## Windows -/

/-- A window call reads the field it is taken of, if it has one. -/
theorem names_windowCall (hsc : KeepsNames sc) {call : WindowCall}
    (h : windowCall sc w = .ok call) :
    call.names = if w.function.isRanking then [] else (w.field.map Expr.fieldNames).getD [] := by
  rw [windowCall] at h
  cases hf : w.function with
  | rowNumber =>
    rw [hf] at h
    cases h
    rfl
  | cumulativeSum =>
    rw [hf] at h
    obtain ⟨t, ht, rfl⟩ := map_eq_ok.mp h
    exact names_windowField hsc ht
  | lag n =>
    rw [hf] at h
    obtain ⟨t, ht, rfl⟩ := map_eq_ok.mp h
    exact names_windowField hsc ht
  | lead n =>
    rw [hf] at h
    obtain ⟨t, ht, rfl⟩ := map_eq_ok.mp h
    exact names_windowField hsc ht
  | rank =>
    rw [hf] at h
    cases h
  | denseRank =>
    rw [hf] at h
    cases h
  | percentRank =>
    rw [hf] at h
    cases h

/-- A window has the effect of its column. -/
theorem effects_windowed (hsc : KeepsNames sc) (hw : c.written = columnOf) {t' : Table}
    (h : windowed c sc t w = .ok t') : t'.effects = t.effects ++ [w.effect] := by
  obtain ⟨call, hcall, rfl⟩ := map_eq_ok.mp h
  rw [Table.effects, map_fst_keys (keyOf c) (fun _ => rfl) hw, hw, names_windowCall hsc hcall]
  rfl

/-- Windows have the effects of their columns in order. -/
theorem effects_windows (hsc : KeepsNames sc) (hw : c.written = columnOf) {ws : List Window}
    {t' : Table} (h : ws.foldlM (windowed c sc) t = .ok t') :
    t'.effects = t.effects ++ ws.map Window.effect := by
  induction ws generalizing t with
  | nil =>
    cases h
    exact (List.append_nil _).symm
  | cons w ws ih =>
    rw [List.foldlM_cons] at h
    obtain ⟨t₁, h₁, h⟩ := bind_eq_ok.mp h
    rw [ih h, effects_windowed hsc hw h₁, List.append_assoc]
    rfl

/-! ## Tables of plans -/

/-- Selecting columns closes the table to them. -/
theorem follows_projected (hw : c.written = columnOf) (select : Option (List String)) (t : Table) :
    Follows t (select.map fun names => .close (names.map columnOf) (names.map columnOf)).toList
      (match select with
      | some names => .project t (names.map c.written)
      | none => t) := by
  rw [hw]
  cases select with
  | none => exact Follows.of_eq (List.append_nil _).symm
  | some names => exact Follows.of_eq rfl

/-- Sorting reads its keys. -/
theorem follows_ordered (hw : c.written = columnOf) (order : List OrderItem)
    (t : Table) :
    Follows t [.read (order.map fun o => columnOf o.field)]
      (if order.isEmpty then t else .order t (order.map (keyOf c))) := by
  cases order with
  | nil => exact Follows.read_nil t
  | cons o order =>
    rw [← map_fst_keys (keyOf c) (fun _ => rfl) hw]
    exact Follows.of_eq rfl

/-- A limit has no effect on columns. -/
theorem follows_limited (limit : Option Nat) (t : Table) :
    Follows t [] (match limit with
      | some n => .head t n
      | none => t) := by
  cases limit <;> exact Follows.of_eq (List.append_nil _).symm

/-- **Without joins a chain is admitted exactly if what its plan does behind the aggregation
is.** -/
theorem admits_iff (hj : p.joins = []) (hd : ∀ source n, d.hasColumn source n = false)
    (h : Table.ofPlan d p = .ok t) :
    (Shape.opened []).Admits t.effects ↔ p.lateShape.Admits p.lateEffects := by
  have hsc := keepsNames_ofPlan hj hd .tabularFrame
  have hw := written_ofPlan hj hd
  rw [Table.ofPlan, hj] at h
  obtain ⟨base, hbase, h⟩ := bind_eq_ok.mp h
  -- Whether the source is copied or not plays no part.
  have hsource : (if ([] : List Join).isEmpty && assignsToSource p then base.copy
      else base).effects = [] := by
    cases hbase
    split <;> rfl
  obtain ⟨preCalcs, -, h⟩ := bind_eq_ok.mp h
  obtain ⟨preFilter, -, h⟩ := bind_eq_ok.mp h
  obtain ⟨aggregates, hagg, h⟩ := bind_eq_ok.mp h
  obtain ⟨postCalcs, hpost, h⟩ := bind_eq_ok.mp h
  obtain ⟨postFilter, hfilter, h⟩ := bind_eq_ok.mp h
  dsimp only at h
  obtain ⟨windowed, hwin, h⟩ := bind_eq_ok.mp h
  obtain rfl := Except.ok.inj h
  have hrows : ∀ e ∈ (assigned preCalcs (if ([] : List Join).isEmpty && assignsToSource p then
      base.copy else base)).effects, e.IsOpen := by
    rw [effects_assigned, hsource]
    exact isOpen_ofColumn preCalcs
  generalize hgroups : reduced _ aggregates _ _ = groups at hwin
  have hcalcs := (Follows.of_eq (effects_assigned postCalcs groups)).trans
    (follows_filtered postFilter _)
  have hwindows := hcalcs.trans (Follows.of_eq (effects_windows hsc hw hwin))
  have hall := ((hwindows.trans (follows_projected hw p.select windowed)).trans
    (follows_ordered hw p.order _)).trans (follows_limited p.limit _)
  rw [effects_calcColumns hsc hpost, names_mapM_ofCondition hsc hfilter, List.append_nil] at hall
  have hsame := hall (.opened []) []
  rw [List.append_nil, List.append_nil] at hsame
  refine hsame.trans ?_
  rw [← hgroups, hw, ← reducedShape_eq hagg]
  exact admits_reduced hrows

end Frame

end DataPhrase
