/-
# Whose tables a chain changes

A chain starts at a table of the caller. A step that assigns a column changes the table to which it
is applied and gives it back; every other step makes a new table. So a chain leaves the tables of
the caller alone if some other step stands in front of its first assignment
(`Table.exists_run`), and in the chain of a statement one does (`sparesCaller_of_generate`).
-/
import DataPhrase.Proofs.Code.Available

namespace DataPhrase

open Code Script

namespace Frame

/-! ## Owners -/

/-- Whose a table is: one of the caller's, or one that the chain has made. -/
inductive Owner where
  | caller
  | chain
  deriving DecidableEq, Repr

namespace Table

/-- The owner of the table that an expression gives. -/
def owner : Table → Owner
  | .source _ => .caller
  | .assign t _ _ | .window t _ _ _ _ => t.owner
  | .merge _ _ _ _ | .copy _ | .rows _ _ | .aggregate _ _ _ _ | .unique _ _ _ | .project _ _
  | .order _ _ | .head _ _ => .chain

/-- The owners of the tables to which columns are assigned, in the order of the steps. -/
def changed : Table → List Owner
  | .source _ => []
  | .assign t _ _ | .window t _ _ _ _ => t.changed ++ [t.owner]
  | .merge t _ _ _ | .copy t | .rows t _ | .aggregate t _ _ _ | .unique t _ _ | .project t _
  | .order t _ | .head t _ => t.changed

/-- No column is assigned to a table of the caller. -/
def SparesCaller (t : Table) : Prop :=
  ∀ o ∈ t.changed, o = .chain

instance (t : Table) : Decidable t.SparesCaller :=
  inferInstanceAs (Decidable (∀ o ∈ t.changed, o = .chain))

/-- A column may be assigned to a copy of the source, but not to the source itself. -/
example : (assign (.copy (.source "S")) "y" .star).SparesCaller ∧
    ¬ (assign (.source "S") "y" .star).SparesCaller := by
  decide

theorem forall_mem_concat_owner (t : Table) :
    (∀ o ∈ t.changed ++ [t.owner], o = .chain) ↔ t.SparesCaller ∧ t.owner = .chain := by
  simp only [SparesCaller, List.mem_append, List.mem_singleton, or_imp, forall_and, forall_eq]

end Table

/-! ## Running a chain -/

/-- What steps make of the contents of tables. -/
structure Interpretation (α : Type) where
  merge : List String → List String → α → α → α
  assign : String → Term → α → α
  rows : Tests → α → α
  aggregate : Tests → List (String × Term) → List String → α → α
  unique : Tests → List String → α → α
  window : List Key → String → WindowCall → List String → α → α
  project : List String → α → α
  order : List Key → α → α
  head : Nat → α → α

section Run

variable {α : Type}

/-- A new table behind the others, made from the one at a place. -/
def make (f : α → α) (r : Nat × List α) : Option (Nat × List α) :=
  r.2[r.1]?.map fun x => (r.2.length, r.2 ++ [f x])

/-- The table at a place changed where it is. -/
def change (f : α → α) (r : Nat × List α) : Option (Nat × List α) :=
  r.2[r.1]?.map fun x => (r.1, r.2.set r.1 (f x))

/-- Run a chain on the tables that are there: its result is the place of a table, and the tables
afterwards. Names say where the tables of the caller are. -/
def Table.run (I : Interpretation α) (place : String → Nat) (tables : List α) :
    Table → Option (Nat × List α)
  | .source name => some (place name, tables)
  | .merge t other left right =>
    (t.run I place tables).bind fun r =>
      r.2[place other]?.bind fun y => make (I.merge left right · y) r
  | .copy t => (t.run I place tables).bind (make id)
  | .assign t a e => (t.run I place tables).bind (change (I.assign a e))
  | .rows t tests => (t.run I place tables).bind (make (I.rows tests))
  | .aggregate t tests columns keys =>
    (t.run I place tables).bind (make (I.aggregate tests columns keys))
  | .unique t tests keys => (t.run I place tables).bind (make (I.unique tests keys))
  | .window t sortKeys a call keys =>
    (t.run I place tables).bind (change (I.window sortKeys a call keys))
  | .project t names => (t.run I place tables).bind (make (I.project names))
  | .order t keys => (t.run I place tables).bind (make (I.order keys))
  | .head t n => (t.run I place tables).bind (make (I.head n))

/-- The tables that were there are still what they were, and a table of the chain is none of
them. -/
structure Leaves (tables : List α) (o : Owner) (r : Nat × List α) : Prop where
  kept : tables <+: r.2
  there : r.1 < r.2.length
  made : o = .chain → tables.length ≤ r.1

variable {tables : List α} {o : Owner} {r : Nat × List α}

theorem Leaves.exists_make (h : Leaves tables o r) (f : α → α) :
    ∃ r', make f r = some r' ∧ Leaves tables .chain r' := by
  refine ⟨(r.2.length, r.2 ++ [f (r.2.get ⟨r.1, h.there⟩)]), ?_, ?_⟩
  · simp [make, h.there]
  · exact ⟨h.kept.trans (List.prefix_append _ _), by simp, fun _ => h.kept.length_le⟩

/-- A table behind those that were there can be changed. -/
theorem Leaves.exists_change (h : Leaves tables .chain r) (f : α → α) :
    ∃ r', change f r = some r' ∧ Leaves tables .chain r' := by
  have hplace : tables.length ≤ r.1 := h.made rfl
  refine ⟨(r.1, r.2.set r.1 (f (r.2.get ⟨r.1, h.there⟩))), ?_, ?_, ?_, h.made⟩
  · simp [change, h.there]
  · generalize f _ = x
    obtain ⟨more, hmore⟩ := h.kept
    rw [← hmore, List.set_append_right _ _ hplace]
    exact List.prefix_append _ _
  · simpa using h.there

/-- **A chain that assigns only to tables of its own can be run, and leaves those of the caller
alone**, whatever its steps compute. -/
theorem Table.exists_run (I : Interpretation α) {place : String → Nat}
    (hplace : ∀ n, place n < tables.length) {t : Table} (h : t.SparesCaller) :
    ∃ r, t.run I place tables = some r ∧ Leaves tables t.owner r := by
  -- Assignments need the table before them to be the chain's own; the other steps make one.
  have hchange {t : Table} {f : α → α} (h : ∀ o ∈ t.changed ++ [t.owner], o = .chain)
      (ih : t.SparesCaller → ∃ r, t.run I place tables = some r ∧ Leaves tables t.owner r) :
      ∃ r, (t.run I place tables).bind (change f) = some r ∧ Leaves tables t.owner r := by
    obtain ⟨hspares, hown⟩ := (forall_mem_concat_owner t).mp h
    obtain ⟨r, hr, hleaves⟩ := ih hspares
    rw [hr]
    rw [hown] at hleaves ⊢
    exact hleaves.exists_change f
  induction t with
  | source name => exact ⟨_, rfl, List.prefix_rfl, hplace name, fun ho => by cases ho⟩
  | merge t other left right ih =>
    obtain ⟨r, hr, hleaves⟩ := ih h
    have hother : place other < r.2.length := (hplace other).trans_le hleaves.kept.length_le
    obtain ⟨r', hr', hleaves'⟩ := hleaves.exists_make (I.merge left right · (r.2[place other]))
    exact ⟨r', by simpa [Table.run, hr, hother] using hr', hleaves'⟩
  | assign t a e ih => exact hchange h ih
  | window t sortKeys a call keys ih => exact hchange h ih
  | copy t ih | rows t _ ih | aggregate t _ _ _ ih | unique t _ _ ih | project t _ ih
  | order t _ ih | head t _ ih =>
    obtain ⟨r, hr, hleaves⟩ := ih h
    rw [Table.run, hr]
    exact hleaves.exists_make _

end Run

/-! ## Chains of plans -/

variable {d : Snapshot} {p : Plan} {c : Columns} {sc : Scope} {t t' : Table} {own own' : Prop}

/-- A table that spares the caller, and is the chain's own where it is to be. -/
structure Serves (t : Table) (own : Prop) : Prop where
  spares : t.SparesCaller
  owned : own → t.owner = .chain

namespace Serves

theorem mono (h : Serves t own) (ho : own' → own) : Serves t own' :=
  ⟨h.spares, fun h' => h.owned (ho h')⟩

theorem assigned {columns : List (String × Term)} (h : Serves t own) (hc : columns ≠ [] → own) :
    Serves (assigned columns t) own := by
  rw [Frame.assigned]
  induction columns generalizing t with
  | nil => exact h
  | cons column columns ih =>
    have hown : own := hc (List.cons_ne_nil _ _)
    refine ih ⟨?_, fun _ => h.owned hown⟩ fun _ => hown
    exact (Table.forall_mem_concat_owner t).mpr ⟨h.spares, h.owned hown⟩

theorem windows {ws : List Window} (h : Serves t own) (hw : ws ≠ [] → own)
    (ht : ws.foldlM (windowed c sc) t = .ok t') : Serves t' own := by
  induction ws generalizing t with
  | nil =>
    obtain rfl := Except.ok.inj ht
    exact h
  | cons w ws ih =>
    have hown : own := hw (List.cons_ne_nil _ _)
    rw [List.foldlM_cons] at ht
    obtain ⟨t₁, h₁, ht⟩ := bind_eq_ok.mp ht
    obtain ⟨call, -, rfl⟩ := map_eq_ok.mp h₁
    refine ih ?_ (fun _ => hown) ht
    exact ⟨(Table.forall_mem_concat_owner t).mpr ⟨h.spares, h.owned hown⟩, fun _ => h.owned hown⟩

/-- Aggregation makes a new table, and so does keeping one row of each group. -/
theorem reduced (tests : Tests) (columns : List (String × Term)) (keys : List String)
    (h : Serves t own) :
    Serves (reduced tests columns keys t) (own ∨ columns ≠ [] ∨ keys ≠ []) := by
  cases columns with
  | cons column columns => exact ⟨h.spares, fun _ => rfl⟩
  | nil =>
    cases keys with
    | cons key keys => exact ⟨h.spares, fun _ => rfl⟩
    | nil =>
      show Serves (if tests.text.isEmpty then t else .rows t tests) _
      split
      · exact h.mono fun ho => ho.resolve_right (by simp)
      · exact ⟨h.spares, fun _ => rfl⟩

theorem filtered (conditions : List Cond) (h : Serves t own) :
    Serves (if conditions.isEmpty then t else .rows t ⟨conditions, none⟩) own := by
  split
  · exact h
  · exact ⟨h.spares, fun _ => rfl⟩

end Serves

/-- Joins spare the caller, and the first one makes a new table. -/
theorem serves_joined {source : String} {js : List Join}
    (h : js.foldlM (joined source) t = .ok t') (ht : t.SparesCaller) :
    Serves t' (js ≠ [] ∨ t.owner = .chain) := by
  induction js generalizing t with
  | nil =>
    obtain rfl := Except.ok.inj h
    exact ⟨ht, fun ho => ho.resolve_left (by simp)⟩
  | cons j js ih =>
    rw [List.foldlM_cons] at h
    obtain ⟨t₁, h₁, h⟩ := bind_eq_ok.mp h
    obtain ⟨ks, -, rfl⟩ := map_eq_ok.mp h₁
    exact (ih h ht).mono fun _ => Or.inr rfl

/-- The table on which the calculations run is the chain's own if any of them is there, or if a
window assigns to it. -/
theorem serves_base {base : Table}
    (h : p.joins.foldlM (joined p.source) (.source p.source) = .ok base) :
    Serves (if p.joins.isEmpty && assignsToSource p then base.copy else base)
      (p.preCalcs ≠ [] ∨ p.isAggregated = false ∧ p.windows ≠ []) := by
  have hbase := serves_joined h fun _ ho => absurd ho List.not_mem_nil
  split
  · exact ⟨hbase.spares, fun _ => rfl⟩
  · next hcopy =>
    refine hbase.mono fun hassigns => Or.inl fun hjoins => hcopy ?_
    rw [hjoins, assignsToSource]
    rcases hassigns with hpre | ⟨hrows, hwindows⟩
    · simp [hpre]
    · simp [hrows, hwindows]

theorem ne_nil_iff_of_mapM {ε α β : Type} {f : α → Except ε β} {l : List α} {l' : List β}
    (h : l.mapM f = .ok l') : l' ≠ [] ↔ l ≠ [] := by
  rw [← List.length_pos_iff, ← List.length_pos_iff, (forall₂_of_mapM h).length_eq]

/-- **A chain assigns to tables of its own only**, if its plan computes nothing behind an
aggregation that is not there. -/
theorem sparesCaller_ofPlan (hp : p.isAggregated = false → p.postCalcs = [])
    (h : Table.ofPlan d p = .ok t) : t.SparesCaller := by
  unfold Table.ofPlan at h
  obtain ⟨base, hbase, h⟩ := bind_eq_ok.mp h
  obtain ⟨preCalcs, hpre, h⟩ := bind_eq_ok.mp h
  obtain ⟨preFilter, -, h⟩ := bind_eq_ok.mp h
  obtain ⟨aggregates, hagg, h⟩ := bind_eq_ok.mp h
  obtain ⟨postCalcs, hpost, h⟩ := bind_eq_ok.mp h
  obtain ⟨postFilter, -, h⟩ := bind_eq_ok.mp h
  dsimp only at h
  obtain ⟨windowed, hwindows, h⟩ := bind_eq_ok.mp h
  obtain rfl := Except.ok.inj h
  have hpre := ne_nil_iff_of_mapM hpre
  have hagg := ne_nil_iff_of_mapM hagg
  have hpost := ne_nil_iff_of_mapM hpost
  -- Row calculations need a table of the chain's own. What is behind the aggregation gets one from
  -- it, or finds no aggregation and no calculation, and windows alone have had the source copied.
  have hrows := (serves_base hbase).assigned fun hne => Or.inl (hpre.mp hne)
  have hgroups := hrows.reduced
    ⟨preFilter, p.period.map fun x => ((Columns.ofPlan d p).written x.field, x)⟩ aggregates
    (p.group.map (Columns.ofPlan d p).written)
  have hlate : Serves _ (p.postCalcs ≠ [] ∨ p.windows ≠ []) := hgroups.mono fun hne => by
    cases ha : p.isAggregated with
    | false =>
      have hwindows : p.windows ≠ [] := hne.resolve_left fun hpost => hpost (hp ha)
      exact Or.inl (Or.inr ⟨rfl, hwindows⟩)
    | true =>
      rw [Plan.isAggregated, Bool.or_eq_true, Bool.not_eq_true', Bool.not_eq_true',
        List.isEmpty_eq_false_iff, List.isEmpty_eq_false_iff] at ha
      exact Or.inr (ha.imp hagg.mpr (List.map_eq_nil_iff.not.mpr ·))
  have hfiltered := (hlate.assigned fun hne => Or.inl (hpost.mp hne)).filtered postFilter
  have hspares := (hfiltered.windows Or.inr hwindows).spares
  -- The projection, the order and the limit assign nothing.
  cases p.select <;> cases p.limit <;> cases p.order <;> exact hspares

/-- **The chain of a statement, valid or not, assigns to tables of its own only.** So wherever the
tables that it names are there, running it leaves all of them as they were. -/
theorem sparesCaller_of_generate {s : Statement} {code : String}
    (h : s.generate .tabularFrame d = .ok code) :
    ∃ t, Table.ofPlan d (Plan.ofStatement s) = .ok t ∧ t.code (Plan.ofStatement s).target = code ∧
      t.SparesCaller ∧
      ∀ {α : Type} (I : Interpretation α) (place : String → Nat) (tables : List α),
        (∀ n, place n < tables.length) →
          ∃ r, t.run I place tables = some r ∧ tables <+: r.2 := by
  obtain ⟨t, ht, hcode⟩ := map_eq_ok.mp h
  have hpost (ha : (Plan.ofStatement s).isAggregated = false) :
      (Plan.ofStatement s).postCalcs = [] := by
    have hnone := Plan.postAliases_of_not_isAggregated ha
    rw [Plan.postAliases, List.append_eq_nil_iff] at hnone
    exact List.map_eq_nil_iff.mp hnone.2
  have hspares := sparesCaller_ofPlan hpost ht
  refine ⟨t, ht, hcode, hspares, fun I place tables hplace => ?_⟩
  obtain ⟨r, hr, hleaves⟩ := Table.exists_run I hplace hspares
  exact ⟨r, hr, hleaves.kept⟩

/-- Half the totals of groups, each with the one before it. -/
def laggedHalves : List Char :=
  ("transform S to T as x * 2 as y, sum(y) as t, t / 2 as h, lag(h) over (order by h) as l " ++
    "grouped by k").toList

def laggedChain : String :=
  "T <- copy(S)[, y := x * 2][, .(t = sum(y, na.rm = TRUE)), by = .(k)][, h := t / 2]" ++
    "[order(h), l := shift(h)]"

/-- Columns of rows, of groups and of windows are assigned to three tables of the chain. -/
theorem sparesCaller_laggedHalves : ∃ s, Statement.parse laggedHalves = .ok s ∧
    s.generate .tabularFrame .empty = .ok laggedChain ∧
    ∃ t, Table.ofPlan .empty (Plan.ofStatement s) = .ok t ∧
      t.code (Plan.ofStatement s).target = laggedChain ∧
      t.changed = [.chain, .chain, .chain] ∧ t.SparesCaller := by
  obtain ⟨s, hs, h⟩ := exists_parse laggedHalves
    (congrArg String.toList String.ofList_append.symm)
    (fun _ s => decide ((s.generate .tabularFrame .empty).toOption = some laggedChain) &&
      (Table.ofPlan .empty (Plan.ofStatement s)).toOption.all fun t =>
        t.changed == [.chain, .chain, .chain])
    (by decide +kernel)
  rw [Bool.and_eq_true, decide_eq_true_iff] at h
  have hcode := eq_ok_of_toOption h.1
  obtain ⟨t, ht, htext, hspares, -⟩ := sparesCaller_of_generate hcode
  refine ⟨s, hs, hcode, t, ht, htext, ?_, hspares⟩
  have hchanged := h.2
  rw [ht] at hchanged
  exact beq_iff_eq.mp hchanged

end Frame

end DataPhrase
