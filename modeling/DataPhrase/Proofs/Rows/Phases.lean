/-
# Stages in the order of a query

Stages without an aggregation come to the same rows as one round of phases: all calculations, all
filters, one sorting, the last selection and one limit (`run_eq_phased`). This takes that no stage
changes what an earlier one has read, and that after a selection only selected columns are read.
-/
import Mathlib.Data.List.Induction
import DataPhrase.Proofs.Rows.Stage
import DataPhrase.Proofs.Validation.Names

namespace DataPhrase.Rows

/-! ## Names -/

/-- A plain name denotes itself. -/
theorem columnOf_of_isPlain {n : String} (h : IsPlain n) : columnOf n = n := by
  rw [columnOf, Check.splitName_of_isPlain h]

/-- The names that operations read are listed without repetitions, but all of them are. -/
theorem mem_readsOf {ops : List Operation} {n : String} :
    n ∈ Pipeline.readsOf ops ↔ ∃ op ∈ ops, n ∈ Pipeline.reads op := by
  have key : ∀ (l acc : List String),
      n ∈ l.foldl (fun names n => if names.contains n then names else names ++ [n]) acc ↔
        n ∈ l ∨ n ∈ acc := by
    intro l
    induction l with
    | nil => simp
    | cons m l ih =>
      intro acc
      rw [List.foldl_cons, ih, List.mem_cons]
      split
      · next hm =>
        rw [List.contains_iff_mem] at hm
        constructor
        · rintro (h | h)
          · exact Or.inl (Or.inr h)
          · exact Or.inr h
        · rintro ((rfl | h) | h)
          · exact Or.inr hm
          · exact Or.inl h
          · exact Or.inr h
      · rw [List.mem_append, List.mem_singleton]
        constructor
        · rintro (h | h | rfl)
          · exact Or.inl (Or.inr h)
          · exact Or.inr h
          · exact Or.inl (Or.inl rfl)
        · rintro ((rfl | h) | h)
          · exact Or.inr (Or.inr rfl)
          · exact Or.inl h
          · exact Or.inr (Or.inl h)
  rw [Pipeline.readsOf, key, List.mem_flatMap]
  simp

namespace RowStage

/-- The stage is one that can be read. -/
def IsWritten (w : RowStage) : Prop :=
  w.body.IsWritten

/-- A filter reads the fields of its condition. -/
theorem mem_reads_filter {c : Condition} (h : (RowStage.filter c).IsWritten) {n : String}
    (hn : n ∈ c.fieldNames) : n ∈ (RowStage.filter c).reads := by
  have hp : IsPlain n := Condition.IsWritten.isPlain h hn
  exact List.mem_map.mpr ⟨n, hn, columnOf_of_isPlain hp⟩

theorem defines_calculate (cs : List Calc) :
    (RowStage.calculate cs).defines = cs.map Calc.aliasName := by
  show (cs.map Calc.operation).filterMap Operation.alias? = _
  rw [List.filterMap_map]
  exact congrFun List.filterMap_eq_map cs

theorem defines_aggregate (as : List Aggregate) :
    (RowStage.aggregate as).defines = as.map Aggregate.aliasName := by
  show (as.map Aggregate.operation).filterMap Operation.alias? = _
  rw [List.filterMap_map]
  exact congrFun List.filterMap_eq_map as

/-- An aggregation reads the fields of its aggregates. -/
theorem mem_reads_aggregate {as : List Aggregate} (h : (RowStage.aggregate as).IsWritten)
    {a : Aggregate} (ha : a ∈ as) {n : String} (hn : n ∈ a.field.fieldNames) :
    n ∈ (RowStage.aggregate as).reads := by
  have hop : a.operation ∈ as.map Aggregate.operation := List.mem_map_of_mem ha
  have hw : a.operation.IsWritten := h.2 _ hop
  have hp : IsPlain n := (hw.exprs a.field List.mem_cons_self).isPlain hn
  refine List.mem_map.mpr ⟨n, ?_, columnOf_of_isPlain hp⟩
  exact mem_readsOf.mpr ⟨a.operation, hop, hn⟩

/-- The group keys after a stage. -/
def keysAfter (keys : List String) : RowStage → List String
  | .group ks => ks
  | _ => keys

/-- An earlier stage goes together with a later one: the later one may follow it, does not change
what it reads, reads only what it selects, and does not sort or group again. -/
structure Before (e w : RowStage) : Prop where
  follows : Check.mayFollow e.kind w.kind = true
  fresh : ∀ n ∈ e.reads, n ∉ w.defines
  shown : ∀ fields, e = .select fields → ∀ n ∈ w.reads, n ∈ fields.map columnOf
  once : e.kind = w.kind → e.kind ≠ .sort ∧ e.kind ≠ .group

end RowStage

/-! ## Phases -/

/-- What stages without an aggregation come to: calculations, conditions, an order, a selection
and a limit. -/
structure Phases where
  calcs : List Calc := []
  conditions : List Condition := []
  order : List OrderItem := []
  select : Option (List String) := none
  limit : Option Nat := none

namespace Phases

/-- The phases with one more stage. -/
def add (ph : Phases) : RowStage → Phases
  | .filter c => { ph with conditions := ph.conditions ++ c.conjuncts }
  | .calculate cs => { ph with calcs := ph.calcs ++ cs }
  | .select fields => { ph with select := some fields }
  | .sort order => { ph with order := order }
  | .limit n => { ph with limit := some n }
  | .group _ | .aggregate _ => ph

/-- The phases of a list of stages. -/
def ofStages (ws : List RowStage) : Phases :=
  ws.foldl add {}

theorem ofStages_append (ws : List RowStage) (w : RowStage) :
    ofStages (ws ++ [w]) = (ofStages ws).add w := by
  rw [ofStages, List.foldl_append]
  rfl

/-- Every part of the phases comes from one of the stages. -/
structure From (ws : List RowStage) (ph : Phases) : Prop where
  conditions : ∀ c ∈ ph.conditions, ∃ d, .filter d ∈ ws ∧ c ∈ d.conjuncts
  order : ph.order ≠ [] → .sort ph.order ∈ ws
  select : ∀ fields ∈ ph.select, .select fields ∈ ws
  limit : ∀ n ∈ ph.limit, .limit n ∈ ws

theorem From.mono {ws : List RowStage} {ph : Phases} (h : ph.From ws) (w : RowStage) :
    ph.From (ws ++ [w]) where
  conditions c hc := by
    obtain ⟨d, hd, hcd⟩ := h.conditions c hc
    exact ⟨d, List.mem_append_left _ hd, hcd⟩
  order ho := List.mem_append_left _ (h.order ho)
  select fields hf := List.mem_append_left _ (h.select fields hf)
  limit n hn := List.mem_append_left _ (h.limit n hn)

theorem From.add {ws : List RowStage} {ph : Phases} (h : ph.From ws) (w : RowStage) :
    (ph.add w).From (ws ++ [w]) := by
  have hm := h.mono w
  have hw : w ∈ ws ++ [w] := List.mem_append_right ws (List.mem_singleton_self w)
  cases w with
  | filter c =>
    refine ⟨?_, hm.order, hm.select, hm.limit⟩
    intro d hd
    rcases List.mem_append.mp hd with hd | hd
    · exact hm.conditions d hd
    · exact ⟨c, hw, hd⟩
  | group keys => exact hm
  | aggregate as => exact hm
  | calculate cs => exact ⟨hm.conditions, hm.order, hm.select, hm.limit⟩
  | select fields =>
    refine ⟨hm.conditions, hm.order, ?_, hm.limit⟩
    intro fs hfs
    cases hfs
    exact hw
  | sort order => exact ⟨hm.conditions, fun _ => hw, hm.select, hm.limit⟩
  | limit n =>
    refine ⟨hm.conditions, hm.order, hm.select, ?_⟩
    intro m hm
    cases hm
    exact hw

theorem from_ofStages (ws : List RowStage) : (ofStages ws).From ws := by
  induction ws using List.reverseRecOn with
  | nil =>
    refine ⟨?_, fun h => absurd rfl h, ?_, ?_⟩
    · intro c hc
      cases hc
    · intro fs hfs
      cases hfs
    · intro n hn
      cases hn
  | append_singleton ws w ih =>
    rw [ofStages_append]
    exact ih.add w

end Phases

/-! ## One round of phases -/

namespace Algebra

variable {V : Type} (A : Algebra V)

/-- The rows after one round of phases. -/
def phased (ph : Phases) (rows : List (Row V)) : List (Row V) :=
  let rows := A.sort ph.order ((rows.map (A.calculateAll ph.calcs)).filter
    (A.keepsAll ph.conditions))
  let rows := match ph.select with
    | some fields => rows.map (A.project fields)
    | none => rows
  match ph.limit with
  | some n => rows.take n
  | none => rows

theorem phased_empty (rows : List (Row V)) : A.phased {} rows = rows := by
  unfold phased
  simp only [A.sort_nil]
  have hc : A.calculateAll [] = id := rfl
  rw [hc, List.map_id]
  exact List.filter_eq_self.mpr fun _ _ => rfl

theorem filter_project {fields : List String} {c : Condition}
    (h : ∀ n ∈ c.fieldNames, n ∈ fields.map columnOf) (rows : List (Row V)) :
    (rows.map (A.project fields)).filter (A.keeps c) =
      (rows.filter (A.keeps c)).map (A.project fields) := by
  rw [List.filter_map]
  congr 1
  refine List.filter_congr fun r _ => ?_
  exact A.keeps_congr fun n hn => A.get_project (h n hn) r

/-- Filtering once more adds to the conditions, if the filter reads what is selected. -/
theorem filter_phased {ph : Phases} {c : Condition} (hl : ph.limit = none)
    (hs : ∀ fields ∈ ph.select, ∀ n ∈ c.fieldNames, n ∈ fields.map columnOf)
    (rows : List (Row V)) : (A.phased ph rows).filter (A.keeps c) =
      A.phased { ph with conditions := ph.conditions ++ c.conjuncts } rows := by
  have hc : ∀ l : List (Row V), (A.sort ph.order (l.filter (A.keepsAll ph.conditions))).filter
      (A.keeps c) = A.sort ph.order (l.filter (A.keepsAll (ph.conditions ++ c.conjuncts))) := by
    intro l
    rw [A.filter_sort, List.filter_filter]
    congr 1
    refine List.filter_congr fun r _ => ?_
    rw [A.keepsAll_append, A.keepsAll_conjuncts, Bool.and_comm]
  unfold phased
  simp only [hl]
  cases hsel : ph.select with
  | none => exact hc _
  | some fields =>
    simp only
    rw [A.filter_project (hs fields hsel), hc]

/-- A filter and a calculation of columns that it does not read may change places. -/
theorem filter_calculateAll (cs : List Calc) (ds : List Condition)
    (h : ∀ d ∈ ds, ∀ n ∈ d.fieldNames, n ∉ cs.map Calc.aliasName) (rows : List (Row V)) :
    (rows.filter (A.keepsAll ds)).map (A.calculateAll cs) =
      (rows.map (A.calculateAll cs)).filter (A.keepsAll ds) := by
  rw [List.filter_map]
  congr 1
  refine List.filter_congr fun r _ => ?_
  rw [Bool.eq_iff_iff]
  show (ds.all fun d => A.keeps d r) = true ↔ (ds.all fun d => A.keeps d (A.calculateAll cs r)) = true
  rw [List.all_eq_true, List.all_eq_true]
  refine forall_congr' fun d => forall_congr' fun hd => ?_
  rw [A.keeps_congr fun n hn => A.get_calculateAll (h d hd n hn) r]

/-- Calculating more columns adds to the calculations, if nothing before has read them. -/
theorem map_calculateAll_phased {ph : Phases} {cs : List Calc} (hl : ph.limit = none)
    (hs : ph.select = none)
    (hc : ∀ d ∈ ph.conditions, ∀ n ∈ d.fieldNames, n ∉ cs.map Calc.aliasName)
    (ho : ∀ n ∈ ph.order.map (fun o => columnOf o.field), n ∉ cs.map Calc.aliasName)
    (rows : List (Row V)) : (A.phased ph rows).map (A.calculateAll cs) =
      A.phased { ph with calcs := ph.calcs ++ cs } rows := by
  unfold phased
  simp only [hl, hs]
  rw [A.map_sort fun n hn r => A.get_calculateAll (ho n hn) r, A.filter_calculateAll _ _ hc,
    List.map_map]
  have hcomp : A.calculateAll cs ∘ A.calculateAll ph.calcs = A.calculateAll (ph.calcs ++ cs) := by
    funext r
    rw [A.calculateAll_append]
    rfl
  rw [hcomp]

/-- A further selection replaces one that keeps its columns. -/
theorem map_project_phased {ph : Phases} {names : List String}
    (hs : ∀ fields ∈ ph.select, ∀ n ∈ names.map columnOf, n ∈ fields.map columnOf)
    (rows : List (Row V)) : (A.phased ph rows).map (A.project names) =
      A.phased { ph with select := some names } rows := by
  have hp : ∀ l : List (Row V), (match ph.select with
      | some fields => l.map (A.project fields)
      | none => l).map (A.project names) = l.map (A.project names) := by
    intro l
    cases hsel : ph.select with
    | none => rfl
    | some fields =>
      simp only
      rw [List.map_map]
      refine List.map_congr_left fun r _ => ?_
      exact A.project_project (hs fields hsel) r
  unfold phased
  cases hl : ph.limit with
  | none => exact hp _
  | some n =>
    simp only
    rw [List.map_take, hp]

/-- The order comes in before the selection, if it reads what is selected. -/
theorem sort_phased {ph : Phases} {order : List OrderItem} (hl : ph.limit = none)
    (ho : ph.order = [])
    (hs : ∀ fields ∈ ph.select, ∀ n ∈ order.map (fun o => columnOf o.field),
      n ∈ fields.map columnOf) (rows : List (Row V)) :
    A.sort order (A.phased ph rows) = A.phased { ph with order := order } rows := by
  unfold phased
  simp only [hl, ho, A.sort_nil]
  cases hsel : ph.select with
  | none => rfl
  | some fields =>
    simp only
    rw [A.map_sort fun n hn r => A.get_project (hs fields hsel n hn) r]

/-- A limit on all rows so far becomes the limit. -/
theorem take_phased {ph : Phases} (hl : ph.limit = none) (n : Nat) (rows : List (Row V)) :
    (A.phased ph rows).take n = A.phased { ph with limit := some n } rows := by
  unfold phased
  simp only [hl]

variable [DecidableEq V]

theorem keys_step (st : State V) (w : RowStage) :
    (A.step st w).keys = RowStage.keysAfter st.keys w := by
  cases w <;> rfl

/-- **One stage more is one phase more**, if it goes together with the stages before it. -/
theorem step_phased {ws : List RowStage} {ph : Phases} (hph : ph.From ws) {w : RowStage}
    (hw : w.IsWritten) (hagg : w.isAggregate = false) (hws : ∀ e ∈ ws, e.IsWritten)
    (hb : ∀ e ∈ ws, e.Before w) (keys : List String) (rows : List (Row V)) :
    (A.step ⟨A.phased ph rows, keys⟩ w).rows = A.phased (ph.add w) rows := by
  have hlimit : w.kind ≠ .select → ph.limit = none := by
    intro hk
    cases hl : ph.limit with
    | none => rfl
    | some n =>
      have := (hb _ (hph.limit n hl)).follows
      exact absurd (beq_iff_eq.mp this) hk
  have hshown : ∀ fields ∈ ph.select, ∀ n ∈ w.reads, n ∈ fields.map columnOf :=
    fun fields hf => (hb _ (hph.select fields hf)).shown fields rfl
  cases w with
  | filter c =>
    refine A.filter_phased (hlimit nofun) ?_ rows
    intro fields hf n hn
    exact hshown fields hf n (RowStage.mem_reads_filter hw hn)
  | group ks => rfl
  | aggregate as => cases hagg
  | calculate cs =>
    refine A.map_calculateAll_phased (hlimit nofun) ?_ ?_ ?_ rows
    · -- no stage before a calculation selects
      cases hs : ph.select with
      | none => rfl
      | some fields => exact absurd (hb _ (hph.select fields hs)).follows Bool.false_ne_true
    · -- no condition so far reads the new columns
      intro d hd n hn
      obtain ⟨c, hc, hdc⟩ := hph.conditions d hd
      rw [← RowStage.defines_calculate]
      refine (hb _ hc).fresh n ?_
      exact RowStage.mem_reads_filter (hws _ hc) (Condition.fieldNames_of_mem_conjuncts hdc hn)
    · -- neither does the order so far
      intro n hn
      rw [← RowStage.defines_calculate]
      have ho : ph.order ≠ [] := by
        intro h
        rw [h] at hn
        cases hn
      refine (hb _ (hph.order ho)).fresh n ?_
      show n ∈ (ph.order.map OrderItem.field).map columnOf
      rwa [List.map_map]
  | select names => exact A.map_project_phased hshown rows
  | sort order =>
    refine A.sort_phased (hlimit nofun) ?_ ?_ rows
    · rcases Decidable.em (ph.order = []) with ho | ho
      · exact ho
      · exact absurd rfl ((hb _ (hph.order ho)).once rfl).1
    · intro fields hf n hn
      refine hshown fields hf n ?_
      show n ∈ (order.map OrderItem.field).map columnOf
      rwa [List.map_map]
  | limit n => exact A.take_phased (hlimit nofun) n rows

/-! ## Runs -/

/-- **Stages that go together and do not aggregate are one round of phases.** -/
theorem foldl_step_phased {ws : List RowStage} (hw : ∀ w ∈ ws, w.IsWritten)
    (hagg : ∀ w ∈ ws, w.isAggregate = false) (hb : ws.Pairwise RowStage.Before)
    (keys : List String) (rows : List (Row V)) :
    ws.foldl A.step ⟨rows, keys⟩ =
      ⟨A.phased (Phases.ofStages ws) rows, ws.foldl RowStage.keysAfter keys⟩ := by
  induction ws using List.reverseRecOn with
  | nil =>
    show State.mk rows keys = ⟨A.phased {} rows, keys⟩
    rw [A.phased_empty]
  | append_singleton ws w ih =>
    have hlast : w ∈ ws ++ [w] := List.mem_append_right ws (List.mem_singleton_self w)
    obtain ⟨hb, -, hbw⟩ := List.pairwise_append.mp hb
    rw [List.foldl_append, List.foldl_append, ih (fun e he => hw e (List.mem_append_left _ he))
      (fun e he => hagg e (List.mem_append_left _ he)) hb, Phases.ofStages_append,
      List.foldl_cons, List.foldl_nil, List.foldl_cons, List.foldl_nil]
    have hstep := A.step_phased (Phases.from_ofStages ws) (hw w hlast) (hagg w hlast)
      (fun e he => hw e (List.mem_append_left _ he))
      (fun e he => hbw e he w (List.mem_singleton_self w))
      (ws.foldl RowStage.keysAfter keys) rows
    rw [← hstep, ← A.keys_step ⟨_, ws.foldl RowStage.keysAfter keys⟩ w]

/-- The rows of stages without an aggregation. -/
theorem run_eq_phased {ws : List RowStage} (hw : ∀ w ∈ ws, w.IsWritten)
    (hagg : ∀ w ∈ ws, w.isAggregate = false) (hb : ws.Pairwise RowStage.Before)
    (table : List (Row V)) : A.run ws table = A.phased (Phases.ofStages ws) table := by
  rw [run, A.foldl_step_phased hw hagg hb]

/-- The rows of stages with one aggregation: one round of phases on each side of it. -/
theorem run_eq_reduce {front back : List RowStage} {as : List Aggregate}
    (hf : ∀ w ∈ front, w.IsWritten) (hff : ∀ w ∈ front, w.isAggregate = false)
    (hfb : front.Pairwise RowStage.Before) (hk : ∀ w ∈ back, w.IsWritten)
    (hkf : ∀ w ∈ back, w.isAggregate = false) (hkb : back.Pairwise RowStage.Before)
    (table : List (Row V)) : A.run (front ++ .aggregate as :: back) table =
      A.phased (Phases.ofStages back) (A.reduce (front.foldl RowStage.keysAfter []) as
        (A.phased (Phases.ofStages front) table)) := by
  rw [run, List.foldl_append, A.foldl_step_phased hf hff hfb, List.foldl_cons]
  exact congrArg State.rows (A.foldl_step_phased hk hkf hkb _ _)

/-! ## Conditions on group keys -/

/-- Conditions on group keys may be taken from behind the grouping to the rows before it. -/
theorem phased_reduce {keys : List String} (hk : keys ≠ []) {ph : Phases} {later : Condition → Bool}
    (hc : ∀ c ∈ ph.conditions, later c = false → ∀ n ∈ c.fieldNames,
      n ∈ keys.map columnOf ∧ n ∉ ph.calcs.map Calc.aliasName)
    (as : List Aggregate) (rows : List (Row V)) :
    A.phased ph (A.reduce keys as rows) =
      A.phased { ph with conditions := ph.conditions.filter later }
        (A.reduce keys as (rows.filter (A.keepsAll (ph.conditions.filter fun c => !later c)))) := by
  have hcut : ∀ r, A.keepsAll ph.conditions r = (A.keepsAll (ph.conditions.filter later) r &&
      A.keepsAll (ph.conditions.filter fun c => !later c) r) := by
    intro r
    unfold keepsAll
    rw [List.all_filter, List.all_filter, Bool.eq_iff_iff, Bool.and_eq_true, List.all_eq_true,
      List.all_eq_true, List.all_eq_true]
    constructor
    · intro h
      exact ⟨fun c hc => by rw [h c hc, Bool.or_true], fun c hc => by rw [h c hc, Bool.or_true]⟩
    · rintro ⟨h, h'⟩ c hc
      have hl := h c hc
      have hl' := h' c hc
      cases hlc : later c with
      | true => simpa [hlc] using hl
      | false => simpa [hlc] using hl'
  have hmem : ∀ c ∈ ph.conditions.filter fun c => !later c,
      c ∈ ph.conditions ∧ later c = false := by
    intro c hm
    obtain ⟨hm, hl⟩ := List.mem_filter.mp hm
    exact ⟨hm, Bool.not_eq_true' _ ▸ hl⟩
  -- a row of group keys answers these conditions as each row of its group does
  have hkeep : ∀ r q : Row V,
      A.keepsAll (ph.conditions.filter fun c => !later c) (A.project keys r ++ q) =
        A.keepsAll (ph.conditions.filter fun c => !later c) r := by
    intro r q
    unfold keepsAll
    rw [Bool.eq_iff_iff, List.all_eq_true, List.all_eq_true]
    refine forall_congr' fun c => forall_congr' fun hm => ?_
    obtain ⟨hm, hl⟩ := hmem c hm
    rw [A.keeps_congr fun n hn => A.get_project_append (hc c hm hl n hn).1 r q]
  have hcalc := A.filter_calculateAll ph.calcs
    (ph.conditions.filter fun c => !later c) (fun c hm n hn =>
      (hc c (hmem c hm).1 (hmem c hm).2 n hn).2) (A.reduce keys as rows)
  unfold phased
  simp only
  rw [← A.filter_reduce hk as hkeep, hcalc, List.filter_filter]
  simp only [← hcut]

end Algebra

end DataPhrase.Rows
