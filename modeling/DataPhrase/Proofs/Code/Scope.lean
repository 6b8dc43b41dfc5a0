/-
# Aliases in queries

A query has no alias in scope but those that order its rows, so every other mention of one has to be
replaced by its definition. Where everything is computed before it is read, the names that a query
mentions are columns of its source, and what it orders by stands in its select list
(`sourceNames_of_valid`).
-/
import DataPhrase.Proofs.Code.Computed
import DataPhrase.Proofs.Code.Query
import DataPhrase.Proofs.Validation.Grouping

namespace DataPhrase

open Code

namespace Sql

variable {src : String → Prop} {known : List String} {d : Snapshot} {p : Plan} {q : Query}
  {as as' rows groups : Aliases} {windows : List (String × WindowTerm)} {n : String}

/-! ## Definitions -/

/-- The definitions mention names in `src` only. -/
def Clean (src : String → Prop) (as : Aliases) : Prop :=
  ∀ n t, as.find? n = some t → ∀ m ∈ t.term.bareNames, src m

theorem not_mem_map_of_find? (h : as.find? n = none) : n ∉ as.map Prod.fst := by
  intro hn
  obtain ⟨x, hx, rfl⟩ := List.mem_map.mp hn
  have hnone := List.find?_eq_none.mp (Option.map_eq_none_iff.mp h) x hx
  exact hnone (beq_self_eq_true x.1)

/-- A definition that mentions names in `src` only may be added. -/
theorem Clean.cons (h : Clean src as) {a : String} {t : AliasTerm}
    (ht : ∀ m ∈ t.term.bareNames, src m) : Clean src ((a, t) :: as) := by
  intro n t' hf
  rw [find?_cons] at hf
  split at hf
  · cases hf
    exact ht
  · exact h n t' hf

/-- What a reference stands for mentions names in `src` if a name without source is defined or is in
`src` itself. -/
theorem Clean.field (h : Clean src as) {r : FieldRef}
    (hr : ∀ n, r = (none, n) → n ∈ as.map Prod.fst ∨ src n) :
    ∀ m ∈ (as.field r).bareNames, src m := by
  obtain ⟨q, n⟩ := r
  cases q with
  | some q => exact fun m hm => nomatch hm
  | none =>
    rw [Aliases.field]
    split
    · next t ht =>
      have hclean := h n t ht
      split
      · exact hclean
      · exact hclean
    · next hnone =>
      intro m hm
      obtain rfl := List.mem_singleton.mp hm
      exact (hr m rfl).resolve_left (not_mem_map_of_find? hnone)

/-- Fields with definitions or in `src` become terms over `src`. -/
theorem Clean.fields (h : Clean src as) {l : List FieldRef}
    (hl : ∀ n ∈ l.filterMap FieldRef.bareName?, n ∈ as.map Prod.fst ∨ src n) :
    ∀ m ∈ l.flatMap fun r => (as.field r).bareNames, src m := by
  intro m hm
  obtain ⟨r, hr, hm⟩ := List.mem_flatMap.mp hm
  refine h.field ?_ m hm
  rintro n rfl
  exact hl n (mem_bareNames.mpr hr)

theorem mem_writtenBareNames {m : String} (h : m ∈ writtenBareNames n) :
    m = n ∧ Check.splitName n = (none, n) := by
  have hn := Check.joinName_splitName n
  unfold writtenBareNames at h
  generalize hr : Check.splitName n = r at h hn
  obtain ⟨q, k⟩ := r
  cases q with
  | none =>
    obtain rfl := List.mem_singleton.mp h
    obtain rfl : m = n := hn
    exact ⟨rfl, rfl⟩
  | some q => cases h

/-- A written name with a definition or in `src` becomes a term over `src`. -/
theorem Clean.written (h : Clean src as)
    (hn : Check.splitName n = (none, n) → n ∈ as.map Prod.fst ∨ src n) :
    ∀ m ∈ (as.written n).bareNames, src m := by
  rw [Aliases.written]
  split
  · next t ht => exact h n t ht
  · next hnone =>
    intro m hm
    obtain ⟨rfl, hbare⟩ := mem_writtenBareNames hm
    exact (hn hbare).resolve_left (not_mem_map_of_find? hnone)

/-- Defining calculations adds their aliases. -/
theorem names_defineCalcs {cs : List Calc} (h : defineCalcs d as cs = .ok as') :
    ∀ n, n ∈ as'.map Prod.fst ↔ n ∈ as.map Prod.fst ++ cs.map Calc.aliasName := by
  induction cs generalizing as with
  | nil =>
    cases h
    intro n
    rw [List.map_nil, List.append_nil]
  | cons c cs ih =>
    obtain ⟨t, -, h⟩ := defineCalcs_cons.mp h
    intro n
    rw [ih h n, List.mem_append, List.mem_append, List.map_cons, List.map_cons, List.mem_cons,
      List.mem_cons]
    exact (or_congr_left or_comm).trans or_assoc

/-- Defining aggregates adds their aliases. -/
theorem names_defineAggregates {l : List Aggregate} (h : defineAggregates d as l = .ok as') :
    ∀ n, n ∈ as'.map Prod.fst ↔ n ∈ as.map Prod.fst ++ l.map Aggregate.aliasName := by
  induction l generalizing as with
  | nil =>
    cases h
    intro n
    rw [List.map_nil, List.append_nil]
  | cons a l ih =>
    obtain ⟨t, -, h⟩ := defineAggregates_cons.mp h
    intro n
    rw [ih h n, List.mem_append, List.mem_append, List.map_cons, List.map_cons, List.mem_cons,
      List.mem_cons]
    exact (or_congr_left or_comm).trans or_assoc

/-- Calculations that read what is defined before them are defined over `src`. -/
theorem clean_defineCalcs {cs : List Calc} (h : Clean src as) (hk : known ⊆ as.map Prod.fst)
    (hc : ReadsBefore src known (cs.map Calc.reading)) (hs : defineCalcs d as cs = .ok as') :
    Clean src as' := by
  induction cs generalizing as known with
  | nil =>
    cases hs
    exact h
  | cons c cs ih =>
    obtain ⟨t, ht, hs⟩ := defineCalcs_cons.mp hs
    refine ih (h.cons ?_) (List.cons_subset_cons c.aliasName hk) hc.2 hs
    show ∀ m ∈ t.bareNames, src m
    rw [bareNames_ofExpr c.expression t ht]
    exact h.fields fun n hn => (hc.1 n hn).imp_left fun h => hk h

/-- An aggregate mentions the names that the fields of its expression stand for. -/
theorem bareNames_aggregateTerm {sc : Scope} {a : Aggregate} {t : Term}
    (h : aggregateTerm sc a = .ok t) :
    t.bareNames = a.field.fields.flatMap fun r => (sc.field r).bareNames := by
  obtain ⟨e, he, h⟩ := bind_eq_ok.mp h
  rw [← bareNames_ofExpr a.field e he]
  split at h
  · exact bareNames_percentileTerm h
  · exact bareNames_percentileTerm h
  · cases h
    split
    · next hstar =>
      have hfield : a.field = .star := by
        cases hf : a.field <;> rw [hf] at hstar <;> first | rfl | cases hstar
      rw [hfield] at he
      cases he
      rfl
    · rfl
  · cases h
    rfl

/-- Aggregates that read what is defined before them are defined over `src`. -/
theorem clean_defineAggregates {l : List Aggregate} (h : Clean src as)
    (hk : known ⊆ as.map Prod.fst) (hc : ReadsBefore src known (l.map Aggregate.reading))
    (hs : defineAggregates d as l = .ok as') : Clean src as' := by
  induction l generalizing as known with
  | nil =>
    cases hs
    exact h
  | cons a l ih =>
    obtain ⟨t, ht, hs⟩ := defineAggregates_cons.mp hs
    refine ih (h.cons ?_) (List.cons_subset_cons a.aliasName hk) hc.2 hs
    show ∀ m ∈ t.bareNames, src m
    rw [bareNames_aggregateTerm ht]
    exact h.fields fun n hn => (hc.1 n hn).imp_left fun h => hk h

/-- The definitions of a plan are those of its calculations and aggregates. -/
theorem Emits.names (h : Emits d p q rows groups as windows) :
    ∀ n, n ∈ as.map Prod.fst ↔ n ∈ p.rowAliases := by
  intro n
  rw [names_defineCalcs h.lateCalcs, List.mem_append, names_defineAggregates h.aggregates,
    List.mem_append, names_defineCalcs h.calcs, List.map_nil, List.nil_append, Plan.rowAliases,
    Plan.postAliases, List.mem_append, List.mem_append, or_assoc]

/-- **The definitions of a plan that computes in order mention names in `src` only.** -/
theorem Emits.clean (h : Emits d p q rows groups as windows) (hp : p.ComputesInOrder src) :
    Clean src as := by
  have hempty : Clean src [] := fun _ _ hf => nomatch hf
  have hrows := clean_defineCalcs hempty (List.Subset.refl _) hp.calcs h.calcs
  have hcalcs (n : String) (hn : n ∈ p.preCalcs.map Calc.aliasName) : n ∈ rows.map Prod.fst :=
    (names_defineCalcs h.calcs n).mpr hn
  have hgroups := clean_defineAggregates hrows hcalcs hp.aggregates h.aggregates
  refine clean_defineCalcs hgroups ?_ hp.lateCalcs h.lateCalcs
  intro n hn
  refine (names_defineAggregates h.aggregates n).mpr (List.mem_append.mpr ?_)
  exact (List.mem_append.mp hn).imp_left (hcalcs n)

/-! ## Windows and columns -/

theorem mem_bareNames_of_windowKey {w : Window} {k : String}
    (hk : k ∈ w.partitionBy ++ w.orderBy.map OrderItem.field)
    (hbare : Check.splitName k = (none, k)) : k ∈ w.operation.bareNames := by
  refine mem_bareNames.mpr (List.mem_append_right _ ?_)
  rw [← hbare]
  exact List.mem_map_of_mem hk

/-- A window mentions names in `src` if it reads nothing else but defined names. -/
theorem Clean.windowTerm (h : Clean src as) {w : Window} {t : WindowTerm}
    (hw : ∀ n ∈ w.operation.bareNames, n ∈ as.map Prod.fst ∨ src n)
    (ht : windowTerm d as w = .ok t) : ∀ m ∈ t.bareNames, src m := by
  have hkey (k : String) (hk : k ∈ w.partitionBy ++ w.orderBy.map OrderItem.field) :
      ∀ m ∈ (as.written k).bareNames, src m :=
    h.written fun hbare => hw k (mem_bareNames_of_windowKey hk hbare)
  have hfield {e : Term} (he : windowField (scope d as) w = .ok e) : ∀ m ∈ e.bareNames, src m := by
    rw [windowField] at he
    split at he
    · next x hx =>
      rw [bareNames_ofExpr x e he]
      refine h.fields fun n hn => hw n (mem_bareNames.mpr (List.mem_append_left _ ?_))
      rw [hx]
      exact mem_bareNames.mp hn
    · cases he
  obtain ⟨hc, hkeys⟩ := windowTerm_eq_ok ht
  intro m hm
  rcases List.mem_append.mp hm with hm | hm
  · cases hcall : t.call with
    | sum e =>
      rw [hcall] at hc hm
      exact hfield (windowField_of_windowCall hc rfl) m hm
    | lag e n =>
      rw [hcall] at hc hm
      exact hfield (windowField_of_windowCall hc rfl) m hm
    | lead e n =>
      rw [hcall] at hc hm
      exact hfield (windowField_of_windowCall hc rfl) m hm
    | _ =>
      rw [hcall] at hm
      cases hm
  · obtain ⟨e, he, hm⟩ := List.mem_flatMap.mp hm
    rw [hkeys] at he
    obtain ⟨k, hk, rfl⟩ := List.mem_map.mp he
    exact hkey k hk m hm

/-- The windows of a query have the aliases of its plan. -/
theorem Emits.windowNames (h : Emits d p q rows groups as windows) :
    n ∈ windows.map Prod.fst ↔ n ∈ p.windows.map Window.aliasName := by
  have hnames : p.windows.map Window.aliasName = windows.reverse.map Prod.fst := by
    have hterms := h.terms
    generalize p.windows = ws, windows.reverse = l at hterms
    induction hterms with
    | nil => rfl
    | cons hw _ ih => rw [List.map_cons, List.map_cons, hw.2, ih]
  rw [hnames, List.map_reverse, List.mem_reverse]

/-- The column of a name mentions names in `src` if every name in it that is no alias is in `src`. -/
theorem Emits.column_bareNames (h : Emits d p q rows groups as windows) (hc : Clean src as)
    (hw : ∀ w ∈ windows, ∀ m ∈ w.2.bareNames, src m) (hn : n ∉ p.aliases → src n) :
    ∀ m ∈ (column as windows n).bareNames, src m := by
  rw [column]
  split
  · next t ht => exact hc n t ht
  · next hnone =>
    split
    · next w hfind => exact hw w (List.mem_of_find?_eq_some hfind)
    · next hwindow =>
      intro m hm
      obtain ⟨rfl, -⟩ := mem_writtenBareNames hm
      refine hn fun hal => ?_
      rcases Plan.mem_aliases.mp hal with hrow | hal
      · exact not_mem_map_of_find? hnone ((h.names _).mpr hrow)
      · obtain ⟨w, hmem, hw⟩ := List.mem_map.mp (h.windowNames.mpr hal)
        exact List.find?_eq_none.mp hwindow w hmem (beq_iff_eq.mpr hw)

/-- The column of an alias has it. -/
theorem Emits.column_alias (h : Emits d p q rows groups as windows) (hn : n ∈ p.aliases) :
    (column as windows n).alias? = some n := by
  rw [column]
  split
  · rfl
  · next hnone =>
    split
    · rfl
    · next hwindow =>
      rcases Plan.mem_aliases.mp hn with hrow | hal
      · exact absurd ((h.names n).mpr hrow) (not_mem_map_of_find? hnone)
      · obtain ⟨w, hmem, hw⟩ := List.mem_map.mp (h.windowNames.mpr hal)
        exact absurd (beq_iff_eq.mpr hw) (List.find?_eq_none.mp hwindow w hmem)

/-! ## Queries -/

/-- **The query of a plan that computes everything before it reads it mentions names in `src` only,
if they are all names but aliases, and if its conditions and keys read no windows.** -/
theorem Emits.bareNames (h : Emits d p q rows groups as windows) (hp : p.ComputesInOrder src)
    (hr : p.ReadsComputed) (hsrc : ∀ n, n ∉ p.aliases → src n)
    (hfilter : ∀ c ∈ p.preFilter ++ p.postFilter, ∀ n ∈ c.bareNames,
      n ∉ p.windows.map Window.aliasName) : ∀ n ∈ q.bareNames, src n := by
  have hclean := h.clean hp
  have hknown {n : String} (hn : n ∉ p.windows.map Window.aliasName) :
      n ∈ as.map Prod.fst ∨ src n := by
    by_cases hal : n ∈ p.aliases
    · exact Or.inl ((h.names n).mpr ((Plan.mem_aliases.mp hal).resolve_right hn))
    · exact Or.inr (hsrc n hal)
  have hcond {c : Condition} {x : Cond} (hx : Cond.ofCondition (scope d as) c = .ok x)
      (hc : ∀ n ∈ c.bareNames, n ∉ p.windows.map Window.aliasName) : ∀ n ∈ x.bareNames, src n := by
    rw [bareNames_ofCondition c x hx]
    exact hclean.fields fun n hn => hknown (hc n hn)
  rw [List.forall_mem_append] at hfilter
  intro n hn
  rw [Query.bareNames] at hn
  simp only [List.mem_append] at hn
  -- In turn: the columns, the joins, the filters, the period, the keys and the filters on groups.
  rcases hn with ((((hn | hn) | hn) | hn) | hn) | hn
  · obtain ⟨c, hc, hn⟩ := List.mem_flatMap.mp hn
    rw [h.columns] at hc
    rcases mem_columnsOf hc with rfl | ⟨k, rfl⟩
    · cases hn
    · refine h.column_bareNames hclean ?_ (hsrc k) n hn
      intro x hx
      obtain ⟨w, hw, ht, -⟩ := exists_mem_of_forall₂ h.terms (List.mem_reverse.mpr hx)
      refine hclean.windowTerm (fun n hn => ?_) ht
      exact (hp.windows w hw n hn).imp_left (h.names n).mpr
  · obtain ⟨x, hx, hn⟩ := List.mem_flatMap.mp hn
    obtain ⟨j, hj, hc⟩ := exists_mem_of_forall₂ h.joins hx
    exact hcond hc (hr.joins j hj) n hn
  · obtain ⟨x, hx, hn⟩ := List.mem_flatMap.mp hn
    obtain ⟨c, hc, hs⟩ := exists_mem_of_forall₂ h.filters hx
    exact hcond hs (hfilter.1 c hc) n hn
  · rw [h.period] at hn
    cases ht : p.period with
    | none =>
      rw [ht] at hn
      cases hn
    | some t =>
      rw [ht] at hn
      exact hclean.written (fun _ => hknown (hr.period t ht)) n hn
  · rw [h.group] at hn
    obtain ⟨x, hx, hn⟩ := List.mem_flatMap.mp hn
    obtain ⟨g, hg, rfl⟩ := List.mem_map.mp hx
    exact hclean.written (fun _ => hknown (hr.keys g hg)) n hn
  · obtain ⟨x, hx, hn⟩ := List.mem_flatMap.mp hn
    obtain ⟨c, hc, hs⟩ := exists_mem_of_forall₂ h.having hx
    exact hcond hs (hfilter.2 c hc) n hn

/-- A name that the result of a plan shows has its column in the query. -/
theorem Emits.exists_column (h : Emits d p q rows groups as windows) (hn : n ∈ p.aliases)
    (hs : ∀ fields ∈ p.select, n ∈ fields)
    (hg : p.select = none → p.isAggregated = true →
      n ∈ p.group ∨ n ∈ p.postAliases ∨ n ∈ p.windows.map Window.aliasName)
    (hrow : p.isAggregated = false → p.postAliases = []) :
    ∃ c ∈ q.columns, c.alias? = some n := by
  refine ⟨column as windows n, ?_, h.column_alias hn⟩
  rw [h.columns, columnsOf]
  split
  · next fields hfields => exact List.mem_map_of_mem (hs fields hfields)
  · next hnone =>
    have hwindow (hw : n ∈ p.windows.map Window.aliasName) :
        column as windows n ∈ p.windows.map fun w => column as windows w.aliasName := by
      obtain ⟨w, hmem, rfl⟩ := List.mem_map.mp hw
      exact List.mem_map_of_mem (f := fun w : Window => column as windows w.aliasName) hmem
    split
    · next ha =>
      rcases hg hnone ha with hg | hpost | hw
      · refine List.mem_append_left _ (List.mem_map_of_mem ?_)
        exact List.mem_append_left _ (List.mem_append_left _ hg)
      · refine List.mem_append_left _ (List.mem_map_of_mem ?_)
        rw [List.append_assoc]
        exact List.mem_append_right _ hpost
      · exact List.mem_append_right _ (hwindow hw)
    · next ha =>
      have hpost := hrow ((Bool.not_eq_true _).mp ha)
      rcases Plan.mem_aliases.mp hn with hn | hw
      · rw [Plan.rowAliases, hpost, List.append_nil] at hn
        obtain ⟨c, hc, rfl⟩ := List.mem_map.mp hn
        refine List.mem_append_left _ (List.mem_cons_of_mem _ ?_)
        exact List.mem_map_of_mem (f := fun c : Calc => column as windows c.aliasName) hc
      · exact List.mem_append_right _ (hwindow hw)

end Sql

/-! ## Valid statements -/

namespace Check

variable {d : Snapshot} {s : Statement} {rules : Rules}

/-- A part of the filter of a valid statement reads no result of a window. -/
theorem not_mem_windows_of_fieldNames (hp : Passes s d) {c : Condition}
    (hc : c ∈ (Plan.ofStatement s).preFilter ++ (Plan.ofStatement s).postFilter) {n : String}
    (hn : n ∈ c.fieldNames) : n ∉ (Plan.ofStatement s).windows.map Window.aliasName := by
  intro hw
  have hrow : n ∈ rowNames s := by
    obtain ⟨whole, hwhole, hpart⟩ := Plan.exists_of_mem_filters hc
    rw [rowNames, hwhole]
    exact List.mem_append_left _ (Condition.fieldNames_of_mem_conjuncts hpart hn)
  exact List.filter_eq_nil_iff.mp (List.map_eq_nil_iff.mp hp.windows) n hrow
    (List.contains_iff_mem.mpr hw)

/-- In a statement that passes, no filter reads the alias of a window. -/
theorem not_mem_windows_of_filter (hp : Passes s d) {c : Condition}
    (hc : c ∈ (Plan.ofStatement s).preFilter ++ (Plan.ofStatement s).postFilter) {n : String}
    (hn : n ∈ c.bareNames) : n ∉ (Plan.ofStatement s).windows.map Window.aliasName :=
  not_mem_windows_of_fieldNames hp hc (List.mem_map_of_mem (f := Prod.snd) (mem_bareNames.mp hn))

/-- **The code of a valid statement mentions aliases only where it orders rows, and there only such
as it shows, provided that everything is computed before it is read.** -/
theorem sourceNames_of_valid {code : String} (hv : (s.check d rules).valid = true)
    (hd : ∀ source n, d.hasColumn source n = false) (hr : (Plan.ofStatement s).ReadsComputed)
    (hg : Sql.generate d (Plan.ofStatement s) = .ok code) :
    ∃ q, Sql.Query.ofPlan d (Plan.ofStatement s) = .ok q ∧ q.text = code ∧
      (∀ n ∈ q.bareNames, s.IsSourceName n) ∧
      ∀ o ∈ q.order, o.field ∈ s.aliases → ∃ c ∈ q.columns, c.alias? = some o.field := by
  have hp := valid_iff.mp hv
  have hal (n : String) : n ∈ (Plan.ofStatement s).aliases ↔ n ∈ s.aliases :=
    (Plan.aliases_ofStatement s).mem_iff
  obtain ⟨q, hq, htext⟩ := Sql.generate_eq_ok.mp hg
  obtain ⟨rows, groups, as, windows, h⟩ := Sql.exists_emits hq
  refine ⟨q, hq, htext, ?_, ?_⟩
  · refine h.bareNames (computesInOrder_of_passes hp hd hr) hr ?_ ?_
    · exact fun n hn hs => absurd ((hal n).mpr hs) hn
    · exact fun c hc n hn => not_mem_windows_of_filter hp hc hn
  · -- A name that orders groups has passed the check of the grouping: it is a late alias, or it has
    -- the column of a key, which then is the name itself.
    intro o ho hn
    rw [h.order] at ho
    have hn' := (hal o.field).mpr hn
    refine h.exists_column hn' (hr.order o ho hn') ?_ ?_
    · intro _ ha
      have hmem : o.field ∈ namesAfter s (Plan.ofStatement s) := by
        rw [Plan.order_ofStatement] at ho
        exact List.mem_append_left _ (List.mem_append_left _ (List.mem_append_left _
          (List.mem_append_right _ (List.mem_map_of_mem ho))))
      have hkept := ((groupingFindings_eq_nil.mp hp.grouping) ha).2 o.field hmem
      rw [isKept, Bool.or_eq_true, Bool.or_eq_true, List.contains_iff_mem, List.contains_iff_mem,
        or_assoc, isGrouped_iff, List.mem_map] at hkept
      refine hkept.imp_left ?_
      rintro ⟨g, hg, he⟩
      exact hr.orderKeys o ho hn' g hg he ▸ hg
    · exact Plan.postAliases_of_not_isAggregated

/-- The ranks of the regions by half of their totals. -/
def rankedHalves : List Char :=
  ("transform S to T as x * 2 as y, sum(y) as t, t / 2 as h, rank() over (order by h) as r " ++
    "grouped by k ordered by h").toList

theorem sourceNames_rankedHalves : ∃ s, Statement.parse rankedHalves = .ok s ∧
    (s.check .empty {}).valid = true ∧ (∀ source n, Snapshot.empty.hasColumn source n = false) ∧
    (Plan.ofStatement s).ReadsComputed ∧
    Sql.generate .empty (Plan.ofStatement s) =
      .ok ("SELECT k, SUM((x * 2)) AS t, SUM((x * 2)) / 2 AS h, " ++
        "RANK() OVER (ORDER BY SUM((x * 2)) / 2) AS r FROM S GROUP BY k ORDER BY h") ∧
    ∃ q, Sql.Query.ofPlan .empty (Plan.ofStatement s) = .ok q ∧
      (∀ n ∈ q.bareNames, s.IsSourceName n) ∧
      ∀ o ∈ q.order, o.field ∈ s.aliases → ∃ c ∈ q.columns, c.alias? = some o.field := by
  obtain ⟨s, hs, h⟩ := exists_parse rankedHalves
    (congrArg String.toList String.ofList_append.symm)
    (fun _ s => (s.check .empty {}).valid && decide (Plan.ofStatement s).ReadsComputed &&
      decide ((Sql.generate .empty (Plan.ofStatement s)).toOption = some
        ("SELECT k, SUM((x * 2)) AS t, SUM((x * 2)) / 2 AS h, " ++
          "RANK() OVER (ORDER BY SUM((x * 2)) / 2) AS r FROM S GROUP BY k ORDER BY h")))
    (by decide +kernel)
  simp only [Bool.and_eq_true, decide_eq_true_iff] at h
  obtain ⟨⟨hv, hr⟩, hcode⟩ := h
  have hd (source n : String) : Snapshot.empty.hasColumn source n = false := rfl
  have hg := eq_ok_of_toOption hcode
  obtain ⟨q, hq, -, hnames, horder⟩ := sourceNames_of_valid hv hd hr hg
  exact ⟨s, hs, hv, hd, hr, hg, q, hq, hnames, horder⟩

/-- A total of a calculation on a total. -/
def totalOfDouble : List Char :=
  "transform S to T as sum(x) as a, a * 2 as b, sum(b) as c".toList

/-- The code of a valid statement can mention an alias that is no column of its source. -/
theorem not_isSourceName_totalOfDouble : ∃ s, Statement.parse totalOfDouble = .ok s ∧
    (s.check .empty {}).valid = true ∧ (∀ source n, Snapshot.empty.hasColumn source n = false) ∧
    Sql.generate .empty (Plan.ofStatement s) =
      .ok "SELECT SUM(x) AS a, SUM(b) AS c, SUM(x) * 2 AS b FROM S" ∧
    ∃ q, Sql.Query.ofPlan .empty (Plan.ofStatement s) = .ok q ∧
      ∃ n ∈ q.bareNames, ¬ s.IsSourceName n := by
  obtain ⟨s, hs, h⟩ := exists_parse totalOfDouble rfl
    (fun _ s => (s.check .empty {}).valid &&
      decide ((Sql.generate .empty (Plan.ofStatement s)).toOption =
        some "SELECT SUM(x) AS a, SUM(b) AS c, SUM(x) * 2 AS b FROM S") &&
      (Sql.Query.ofPlan .empty (Plan.ofStatement s)).toOption.any fun q =>
        q.bareNames.any fun n => decide (¬ s.IsSourceName n))
    (by decide +kernel)
  simp only [Bool.and_eq_true, decide_eq_true_iff, Option.any_eq_true, List.any_eq_true] at h
  obtain ⟨⟨hv, hcode⟩, q, hq, hnames⟩ := h
  exact ⟨s, hs, hv, fun _ _ => rfl, eq_ok_of_toOption hcode, q, eq_ok_of_toOption hq, hnames⟩

end Check

end DataPhrase
